import Flow.Ports.Collaboration
import Flow.Verified.Slots

/-!
# The queue of access checks

A change of access asks for a check of the sockets that it may concern.  The scopes that
are asked for wait merged in the queue of their workspace, and one worker takes them until
there is none.  This is the queue of one workspace; `push` and `take` run under its lock.

What a scope covers, a merged one covers as well: two teams for one issue become the empty
text, with which the issue is always checked.
-/

namespace Flow.Ports.Collaboration

open List Flow.Verified Run

/-- One issue of `merge`; the first entry of an id counts. -/
def mergeIssue (issues : List (String × String)) (issue : String × String) :
    List (String × String) :=
  (issue.1, if (issues.lookup issue.1).all (· = issue.2) then issue.2 else "") :: issues

def SocketAccessScope.merge (scope other : SocketAccessScope) : SocketAccessScope where
  all := scope.all || other.all
  issues := other.issues.foldl mergeIssue scope.issues
  documents := scope.documents ++ other.documents
  users := scope.users ++ other.users

def SocketAccessScope.empty (scope : SocketAccessScope) : Bool :=
  !scope.all && scope.issues.isEmpty && scope.documents.isEmpty && scope.users.isEmpty

/-- A socket of the workspace, with its entries by document. -/
structure SocketClient where
  userID : String
  entries : List (String × Entry)

/-- An entry of `socketAccessWork`: a target is a document, with its issue. -/
structure SocketAccessWork where
  client : SocketClient
  credential : Bool
  targets : List (String × Option String)

def SocketClient.work (scope : SocketAccessScope) (client : SocketClient) : SocketAccessWork where
  client := client
  credential := scope.all || scope.users.contains client.userID
  targets :=
    (client.entries.filter fun (_, entry) => scope.coversIssue client.userID entry).map
        (fun (id, entry) => (id, entry.issueID)) ++
      (client.entries.filter fun (id, entry) =>
        entry.documentAccess.any (scope.coversDocument client.userID id)).map
        fun (id, _) => (id, none)

/-- The list that `socketAccessWork` answers. -/
def listedWork (scope : SocketAccessScope) (clients : List SocketClient) : List SocketAccessWork :=
  (clients.map (SocketClient.work scope)).filter fun item => item.credential || item.targets ≠ []

/-- In every state of the hub a check of `taken` lists what one of `scope` would list. -/
def Covers (taken scope : SocketAccessScope) : Prop :=
  ∀ clients, ∀ item ∈ listedWork scope clients, ∃ found ∈ listedWork taken clients,
    found.client = item.client ∧ (item.credential → found.credential) ∧
      item.targets ⊆ found.targets

/-! ## The queue -/

/-- Where `runSocketAccessChecks` is. -/
inductive Worker where
  | taking
  | checking (scope : SocketAccessScope)
  | returned

def Worker.active : Worker → Bool
  | .returned => false
  | _ => true

structure Queue where
  pending : Option SocketAccessScope
  running : Bool
  workers : List Worker
  /-- What was pushed since the last take. -/
  waiting : List SocketAccessScope
  /-- What was pushed before, with what the next take answered. -/
  taken : List (SocketAccessScope × SocketAccessScope)

def Queue.start : Queue := ⟨none, false, [], [], []⟩

inductive QueueLabel where
  | push (scope : SocketAccessScope)
  | work (i : Nat)

def Queue.step (q : Queue) : QueueLabel → Option Queue
  | .push scope => some
    { q with
      pending := some ((q.pending.getD {}).merge scope)
      running := true
      workers := if q.running then q.workers else q.workers ++ [.taking]
      waiting := q.waiting ++ [scope] }
  | .work i =>
    match q.workers[i]?, q.pending with
    | some .taking, none => some { q with running := false, workers := q.workers.set i .returned }
    | some .taking, some scope => some
      { q with
        pending := none
        workers := q.workers.set i (if scope.empty then .taking else .checking scope)
        waiting := []
        taken := q.taken ++ q.waiting.map (·, scope) }
    | some (.checking _), _ => some { q with workers := q.workers.set i .taking }
    | _, _ => none

/-- One worker at most; a take covers all that was pushed before it, and what was pushed since
is taken at a worker's next step, or at the one after its check. -/
structure Queue.Promise (q : Queue) : Prop where
  single : q.workers.countP Worker.active ≤ 1
  covered : ∀ entry ∈ q.taken, Covers entry.2 entry.1
  waits : ∀ scope ∈ q.waiting, ∃ pending, q.pending = some pending ∧ Covers pending scope
  taken : q.waiting ≠ [] → ∃ i next, q.step (.work i) = some next ∧
    (next.waiting = [] ∨ ∃ last, next.step (.work i) = some last ∧ last.waiting = [])

section Covering

variable {scope taken last : SocketAccessScope}

/-- A merged issue has one of its teams, or the empty text. -/
theorem any_lookup_merge {p : String → Bool} (hp : p "") (id : String)
    (more issues : List (String × String)) (h : (issues.lookup id).any p ∨ (more.lookup id).any p) :
    ((more.foldl mergeIssue issues).lookup id).any p := by
  induction more generalizing issues with
  | nil => simpa using h
  | cons issue rest ih =>
    obtain ⟨name, team⟩ := issue
    apply ih _
    by_cases hid : id = name
    · subst hid
      left
      simp only [mergeIssue, lookup_cons_self] at h ⊢
      split
      · next hall =>
        rcases h with h | h
        · obtain ⟨current, hcurrent, hp⟩ := (Option.any_eq_true _ _).mp h
          simp_all
        · exact h
      · exact hp
    · have hne : (id == name) = false := beq_eq_false_iff_ne.mpr hid
      simpa only [mergeIssue, lookup_cons, hne] using h

structure Wider (taken scope : SocketAccessScope) : Prop where
  credential : ∀ userID, scope.all || scope.users.contains userID →
    taken.all || taken.users.contains userID
  issue : ∀ userID entry, scope.coversIssue userID entry → taken.coversIssue userID entry
  document : ∀ userID id access, scope.coversDocument userID id access →
    taken.coversDocument userID id access

theorem Wider.trans (h : Wider last taken) (h' : Wider taken scope) : Wider last scope where
  credential userID := h.credential userID ∘ h'.credential userID
  issue userID entry := h.issue userID entry ∘ h'.issue userID entry
  document userID id access := h.document userID id access ∘ h'.document userID id access

theorem wider_merge (scope other : SocketAccessScope) :
    Wider (scope.merge other) scope ∧ Wider (scope.merge other) other := by
  have hissue : ∀ userID entry, scope.coversIssue userID entry ∨ other.coversIssue userID entry →
      (scope.merge other).coversIssue userID entry := by
    intro userID entry h
    unfold SocketAccessScope.coversIssue at h ⊢
    cases hid : entry.issueID with
    | none => simp [hid] at h
    | some issueID =>
      have hevery := any_lookup_merge (p := fun _ => true) rfl "*" other.issues scope.issues
      have hlisted := any_lookup_merge (p := fun team =>
        team = "" || !(entry.issueAccess.any fun access => access.teamID = team)) rfl issueID
        other.issues scope.issues
      simp [hid, SocketAccessScope.merge] at h hevery hlisted ⊢
      grind
  refine ⟨⟨?_, fun _ _ h => hissue _ _ (.inl h), ?_⟩,
    ⟨?_, fun _ _ h => hissue _ _ (.inr h), ?_⟩⟩ <;>
    simp [SocketAccessScope.merge, SocketAccessScope.coversDocument] <;> grind

theorem Wider.covers (h : Wider taken scope) : Covers taken scope := by
  intro clients item hitem
  obtain ⟨hitem, hlisted⟩ := mem_filter.mp hitem
  obtain ⟨client, hclient, rfl⟩ := mem_map.mp hitem
  have hcredential : (client.work scope).credential → (client.work taken).credential :=
    h.credential client.userID
  have htargets : (client.work scope).targets ⊆ (client.work taken).targets := by
    refine (Sublist.append ?_ ?_).subset <;> refine (monotone_filter_right _ fun entry => ?_).map _
    · exact h.issue client.userID entry.2
    · simp only [Option.any_eq_true]
      exact fun ⟨access, haccess, hcovers⟩ =>
        ⟨access, haccess, h.document client.userID entry.1 access hcovers⟩
  refine ⟨client.work taken, mem_filter.mpr ⟨mem_map_of_mem hclient, ?_⟩, rfl, hcredential,
    htargets⟩
  simp only [Bool.or_eq_true, decide_eq_true_eq] at hlisted ⊢
  refine hlisted.imp hcredential fun hne => ?_
  obtain ⟨target, htarget⟩ := exists_mem_of_ne_nil _ hne
  exact ne_nil_of_mem (htargets htarget)

end Covering

section Runs

variable {q q' : Queue} {l : QueueLabel}

structure Inv (q : Queue) : Prop where
  workers : q.workers.countP Worker.active = q.running.toNat
  running : q.pending.isSome → q.running
  taken : ∀ entry ∈ q.taken, Wider entry.2 entry.1
  waiting : ∀ scope ∈ q.waiting, ∃ pending, q.pending = some pending ∧ Wider pending scope

theorem countP_set_worker {workers : List Worker} {i : Nat} {old : Worker}
    (h : workers[i]? = some old) (hold : old.active) (new : Worker) :
    (workers.set i new).countP Worker.active + 1 =
      workers.countP Worker.active + new.active.toNat := by
  obtain ⟨front, back, rfl, hset, _⟩ := Slots.exists_around h
  rw [hset]
  cases hnew : new.active <;> simp [hold, hnew, Nat.add_assoc]

theorem Inv.step (h : Inv q) (hstep : q.step l = some q') : Inv q' := by
  cases l with
  | push scope =>
    cases hstep
    obtain ⟨hleft, hright⟩ := wider_merge (q.pending.getD {}) scope
    refine ⟨?_, fun _ => rfl, h.taken, Slots.forall_push (fun old hold => ?_) ⟨_, rfl, hright⟩⟩
    · have hworkers := h.workers
      cases hrunning : q.running <;> simp_all [Worker.active]
    · obtain ⟨pending, hpending, hwider⟩ := h.waiting old hold
      rw [hpending] at hleft ⊢
      exact ⟨_, rfl, hleft.trans hwider⟩
  | work i =>
    rw [Queue.step] at hstep
    split at hstep
    · next hworker hpending =>
      cases hstep
      have hcount := countP_set_worker hworker rfl .returned
      have hworkers := h.workers
      refine ⟨?_, fun hsome => absurd hsome (by simp [hpending]), h.taken, h.waiting⟩
      cases hrunning : q.running <;> simp_all [Worker.active]
    · next scope hworker hpending =>
      cases hstep
      refine ⟨?_, nofun, fun entry hentry => ?_, nofun⟩
      · have hcount := countP_set_worker hworker rfl
          (if scope.empty then .taking else .checking scope)
        have hactive : (if scope.empty then .taking else .checking scope : Worker).active := by
          split <;> rfl
        rw [hactive, h.workers] at hcount
        exact Nat.succ.inj hcount
      · rcases mem_append.mp hentry with hentry | hentry
        · exact h.taken entry hentry
        · obtain ⟨pushed, hpushed, rfl⟩ := mem_map.mp hentry
          obtain ⟨pending, heq, hwider⟩ := h.waiting pushed hpushed
          cases hpending.symm.trans heq
          exact hwider
    · next scope pending hworker =>
      cases hstep
      have hcount := countP_set_worker hworker rfl .taking
      rw [h.workers] at hcount
      exact ⟨Nat.succ.inj hcount, h.running, h.taken, h.waiting⟩
    · cases hstep

theorem Inv.taken_next (h : Inv q) (hne : q.waiting ≠ []) : ∃ i next, q.step (.work i) = some next ∧
      (next.waiting = [] ∨ ∃ last, next.step (.work i) = some last ∧ last.waiting = []) := by
  obtain ⟨scope, hscope⟩ := exists_mem_of_ne_nil _ hne
  obtain ⟨pending, hpending, _⟩ := h.waiting scope hscope
  have hcount : 0 < q.workers.countP Worker.active := by
    rw [h.workers, h.running (hpending ▸ rfl)]
    exact Nat.one_pos
  obtain ⟨worker, hworker, hactive⟩ := countP_pos_iff.mp hcount
  obtain ⟨i, hi⟩ := mem_iff_getElem?.mp hworker
  refine ⟨i, ?_⟩
  cases worker with
  | returned => cases hactive
  | taking => exact ⟨_, by rw [Queue.step, hi, hpending], .inl rfl⟩
  | checking scope =>
    have hset : (q.workers.set i .taking)[i]? = some .taking :=
      getElem?_set_self (List.getElem?_eq_some_iff.mp hi).1
    refine ⟨_, by rw [Queue.step, hi], .inr ?_⟩
    simp [Queue.step, hset, hpending]

/-- **Every scope that is pushed is checked.** -/
theorem every_push_checked (hrun : Reaches Queue.step Unrestricted Queue.start q) : q.Promise := by
  have h : Inv q := hrun.invariant (fun _ _ _ h _ hstep => h.step hstep)
    ⟨rfl, nofun, nofun, nofun⟩
  refine ⟨?_, fun entry hentry => (h.taken entry hentry).covers, fun scope hscope => ?_,
    h.taken_next⟩
  · rw [h.workers]
    exact Bool.toNat_le _
  · obtain ⟨pending, hpending, hwider⟩ := h.waiting scope hscope
    exact ⟨pending, hpending, hwider.covers⟩

end Runs

/-- Two changes leave one issue in different teams while the worker is at its first check; it
takes both scopes, merged, at its next turn. -/
theorem every_push_checked_overlap : ∃ q, Reaches Queue.step Unrestricted Queue.start q ∧
    q.taken.map (fun entry => entry.2.issues.lookup "i") = [none, some "", some ""] ∧ q.Promise :=
  exists_reaches_and [.push { users := ["u"] }, .work 0, .push { issues := [("i", "a")] },
    .push { issues := [("i", "b")] }, .work 0, .work 0] Queue.start (by decide)
    fun _ hrun _ => every_push_checked hrun

end Flow.Ports.Collaboration
