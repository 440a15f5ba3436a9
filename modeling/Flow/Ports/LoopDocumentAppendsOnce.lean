import Flow.Ports.LoopDocumentAppends

/-!
# A loop occurrence is appended by one run

The claim is meant to make the appends of an occurrence exclusive, and the
invariant says so: whoever has appended, and whoever may still append, is the
run that the row names.  A step that leaves the row's run alone keeps this,
since a call goes on only on its own run's row.  A step that ends a claim keeps
it when nobody is left whom the row stood for.

The source does not see to that.  It ends a claim on what it reads of the
holder at another time: a lease that was not renewed, a document read before the
holder wrote it, a document that could not be read.
-/

namespace Flow.Ports.LoopAppends

open List Option Flow.Verified
open Run (Reaches)
open Slots (Reply)

def State.holder (st : State) : Option Nat := st.claim.map (·.runID)

structure Held (holder : Option Nat) (calls : List Call) (sections : List Section) : Prop where
  appended : ∀ a ∈ sections, holder = some a.runID
  writing : ∀ call ∈ calls, call.stage.writes → holder = some call.runID

def State.Held (st : State) : Prop := LoopAppends.Held st.holder st.calls st.sections

theorem Held.start (document : Document) : (State.start document).Held :=
  ⟨fun _ h => (nomatch h), fun _ h => (nomatch h)⟩

variable {st st' : State} {c now : Nat} {reply : Reply} {call : Call} {stage : Stage}
  {claim : Option LoopDocumentAppend}

theorem State.Held.move (h : st.Held) (hclaim : claim.map (·.runID) = st.holder)
    (hstage : stage.writes → st.holder = some call.runID) :
    ({ st.put c call stage with claim := claim } : State).Held := by
  have hmoved : LoopAppends.Held st.holder (st.put c call stage).calls st.sections :=
    ⟨h.appended, Slots.forall_set h.writing hstage⟩
  rw [← hclaim] at hmoved
  exact hmoved

theorem State.Held.rest (h : st.Held) (hstage : stage.writes = false) :
    (st.put c call stage).Held :=
  h.move rfl fun hwrites => by
    rw [hstage] at hwrites
    cases hwrites

/-- Nobody appended and nobody may append. -/
def State.Vacant (st : State) : Prop :=
  st.sections = [] ∧ ∀ call ∈ st.calls, call.stage.writes = false

/-- With an idle holder, or none, nobody appended and nobody may append. -/
theorem State.Held.vacant (h : st.Held) (hidle : ∀ run ∈ st.holder, st.Idle run) : st.Vacant := by
  constructor
  · refine eq_nil_iff_forall_not_mem.mpr fun a ha => ?_
    exact (hidle a.runID (h.appended a ha)).1 a ha rfl
  · intro call hcall
    refine Bool.eq_false_iff.mpr fun hwrites => ?_
    exact (hidle call.runID (h.writing call hcall hwrites)).2 call hcall hwrites rfl

theorem State.Vacant.move (h : st.Vacant)
    (hstage : stage.writes → claim.map (·.runID) = some call.runID) :
    ({ st.put c call stage with claim := claim } : State).Held := by
  obtain ⟨hsections, hcalls⟩ := h
  refine ⟨?_, Slots.forall_set ?_ hstage⟩
  · intro a ha
    change a ∈ st.sections at ha
    rw [hsections] at ha
    cases ha
  · intro other hother hwrites
    rw [hcalls other hother] at hwrites
    cases hwrites

/-! ## The statements keep it -/

@[simp]
theorem retry_writes (attempt : Nat) : (retry attempt).writes = false := by
  unfold retry
  split <;> rfl

theorem settleAppended_holder (claim : Option LoopDocumentAppend) (run : Nat) :
    (settleAppended claim run).map (·.runID) = claim.map (·.runID) := by
  cases claim with
  | none => rfl
  | some row =>
    simp only [settleAppended, map_some]
    split <;> rfl

theorem holder_of_pending {run : Nat} (h : st.pending run) : st.holder = some run := by
  obtain ⟨row, hrow, hrun⟩ := (any_eq_true _ _).mp h
  rw [State.holder, hrow]
  exact congrArg some (of_decide_eq_true hrun).1

theorem State.Held.begin {run : Nat} {form : Form} {text : Text} (h : st.Held)
    (hstep : st.begin run form text = some st') : st'.Held := by
  obtain ⟨_, hst⟩ := ite_none_right_eq_some.mp hstep
  cases hst
  exact ⟨h.appended, Slots.forall_push h.writing fun hwrites => nomatch hwrites⟩

/-- The claim is inserted into a table whose row, if it had one, has expired. -/
theorem State.Held.insert (h : st.Held) (hsound : st.Sound (.insert c now reply))
    (hstep : st.insert c now reply = some st') : st'.Held := by
  obtain ⟨call, _, hcall⟩ := bind_eq_some_iff.mp hstep
  cases hstage : call.stage with
  | claiming attempt =>
    simp only [hstage] at hcall
    cases hkept : st.claim.filter (fun row => !row.expired now) with
    | none =>
      have hvacant : st.Vacant := by
        refine h.vacant fun run hrun => hsound run ?_
        obtain ⟨row, hrow, hrun⟩ := map_eq_some_iff.mp hrun
        have hexpired : row.expired now = true := by
          simpa using filter_eq_none_iff.mp hkept row hrow
        exact map_eq_some_iff.mpr ⟨row, by simp [hrow, hexpired], hrun⟩
      rw [hkept] at hcall
      cases reply with
      | ok =>
        cases hcall
        exact hvacant.move fun _ => rfl
      | unreported | failed =>
        cases hcall
        exact hvacant.move fun hwrites => nomatch hwrites
    | some row =>
      have hrow : st.claim = some row := (filter_eq_some_iff.mp hkept).1
      rw [hkept] at hcall
      cases hcall
      exact h.move (congrArg _ hrow.symm) fun hwrites => nomatch hwrites
  | _ => simp [hstage] at hcall

theorem State.Held.lookup {answered : Bool} (h : st.Held)
    (hstep : st.lookup c answered = some st') : st'.Held := by
  obtain ⟨call, _, hcall⟩ := bind_eq_some_iff.mp hstep
  cases hstage : call.stage with
  | conflicting attempt =>
    simp only [hstage] at hcall
    split at hcall
    · next existing hexisting =>
        split at hcall
        · next hrun =>
            cases hcall
            refine h.move rfl fun _ => ?_
            rw [State.holder, hexisting]
            exact congrArg some hrun
        · cases hcall
          exact h.rest rfl
    · cases hcall
      exact h.rest rfl
  | _ => simp [hstage] at hcall

theorem State.Held.judge {leaseTTL : Nat} (h : st.Held)
    (hstep : st.judge leaseTTL c now reply = some st') : st'.Held := by
  obtain ⟨call, _, hcall⟩ := bind_eq_some_iff.mp hstep
  cases hstage : call.stage with
  | judging attempt existing =>
    simp only [hstage] at hcall
    split at hcall
    · cases hcall
      exact h.rest rfl
    · split at hcall
      · cases hcall
        refine h.move ?_ fun hwrites => nomatch hwrites
        split
        · rfl
        · exact settleAppended_holder _ _
      · split at hcall
        · cases hcall
          exact h.rest rfl
        · cases hcall
          exact h.rest rfl
  | _ => simp [hstage] at hcall

/-- A claim is taken over from an idle run. -/
theorem State.Held.takeOver (h : st.Held) (hsound : st.Sound (.takeOver c now reply))
    (hstep : st.takeOver c now reply = some st') : st'.Held := by
  obtain ⟨call, hmem, hcall⟩ := bind_eq_some_iff.mp hstep
  cases hstage : call.stage with
  | takingOver attempt existing =>
    simp only [hstage] at hcall
    split at hcall
    · next hpending =>
        have hvacant : reply ≠ .failed → st.Vacant := by
          intro hreply
          refine h.vacant fun run hrun => hsound run ?_
          rw [holder_of_pending hpending] at hrun
          simpa [State.ended, hmem, hstage, hreply, hpending] using hrun
        split at hcall
        · cases hcall
          exact (hvacant nofun).move fun _ => rfl
        · cases hcall
          refine (hvacant nofun).move fun hwrites => ?_
          rw [retry_writes] at hwrites
          cases hwrites
        · cases hcall
          exact h.rest (retry_writes attempt)
    · cases hcall
      exact h.rest (retry_writes attempt)
  | _ => simp [hstage] at hcall

theorem State.Held.fetch (h : st.Held) (hstep : st.fetch c = some st') : st'.Held := by
  obtain ⟨call, hmem, hcall⟩ := bind_eq_some_iff.mp hstep
  cases hstage : call.stage with
  | executing claimed =>
    simp only [hstage] at hcall
    cases hcall
    refine h.move rfl fun _ => h.writing call (mem_of_getElem? hmem) ?_
    rw [hstage]
    rfl
  | _ => simp [hstage] at hcall

theorem State.Held.write (h : st.Held) (hstep : st.write c reply = some st') : st'.Held := by
  obtain ⟨call, hmem, hcall⟩ := bind_eq_some_iff.mp hstep
  cases hstage : call.stage with
  | saving claimed current =>
    simp only [hstage] at hcall
    have hrun : st.holder = some call.runID := by
      apply h.writing call (mem_of_getElem? hmem)
      rw [hstage]
      rfl
    split at hcall
    · cases hcall
      exact h.rest rfl
    · split at hcall
      · cases hcall
        exact h.rest rfl
      · cases hcall
        exact ⟨Slots.forall_push h.appended hrun,
          Slots.forall_set h.writing fun hwrites => nomatch hwrites⟩
  | _ => simp [hstage] at hcall

theorem State.Held.verify {found : Bool} (h : st.Held)
    (hstep : st.verify c found = some st') : st'.Held := by
  obtain ⟨call, _, hcall⟩ := bind_eq_some_iff.mp hstep
  cases hstage : call.stage with
  | executed claimed failed =>
    simp only [hstage] at hcall
    cases hcall
    apply h.rest
    split <;> rfl
  | _ => simp [hstage] at hcall

theorem State.Held.settle (h : st.Held) (hsound : st.Sound (.settle c reply))
    (hstep : st.settle c reply = some st') : st'.Held := by
  obtain ⟨call, hmem, hcall⟩ := bind_eq_some_iff.mp hstep
  cases hstage : call.stage with
  | settling changed =>
    simp only [hstage] at hcall
    cases hcall
    by_cases hreply : reply = .failed
    · rw [if_pos hreply]
      exact h.rest rfl
    rw [if_neg hreply]
    cases changed with
    | true => exact h.move (settleAppended_holder _ _) fun hwrites => nomatch hwrites
    | false =>
      by_cases hpending : st.pending call.runID
      · have hvacant : st.Vacant := by
          refine h.vacant fun run hrun => hsound run ?_
          rw [holder_of_pending hpending] at hrun
          simpa [State.ended, hmem, hstage, hreply, hpending] using hrun
        exact hvacant.move fun hwrites => nomatch hwrites
      · rw [if_neg hpending]
        exact h.rest rfl
  | _ => simp [hstage] at hcall

theorem State.Held.crash (h : st.Held) (hstep : st.crash c = some st') : st'.Held := by
  obtain ⟨call, _, rfl⟩ := map_eq_some_iff.mp hstep
  exact h.rest rfl

/-- **Every step keeps the invariant.** -/
theorem State.Held.step {leaseTTL : Nat} {l : Label} (h : st.Held) (hsound : st.Sound l)
    (hstep : st.step leaseTTL l = some st') : st'.Held := by
  cases l with
  | begin run form text => exact h.begin hstep
  | insert c now reply => exact h.insert hsound hstep
  | lookup c answered => exact h.lookup hstep
  | judge c now reply => exact h.judge hstep
  | takeOver c now reply => exact h.takeOver hsound hstep
  | fetch c => exact h.fetch hstep
  | write c reply => exact h.write hstep
  | verify c found => exact h.verify hstep
  | settle c reply => exact h.settle hsound hstep
  | crash c => exact h.crash hstep
  | record | heartbeat | edit =>
    cases hstep
    exact h

/-- **The occurrence is appended by one run.** When every claim that is ended belonged to a loop
run that had appended nothing and was not about to, the sections come from at most one loop run.
-/
theorem one_run_of_reaches {leaseTTL : Nat} {document : Document} {st : State}
    (hrun : Reaches (State.step leaseTTL) State.Sound (.start document) st) : st.OneRun := by
  have hheld : st.Held :=
    hrun.invariant (P := State.Held) (fun _ _ _ h hsound hstep => h.step hsound hstep)
      (Held.start document)
  intro a ha b hb
  exact some.inj ((hheld.appended a ha).symm.trans (hheld.appended b hb))

def note : Document := { content := ['n'], title := ['t'], version := 1 }

/-- The first run stops between its claim and its write; the second takes the
claim over and appends. -/
theorem one_run_after_takeOver :
    ∃ st, (Reaches (State.step 60) State.Sound (.start note) st ∧
      st.sections = [{ runID := 2, text := ['b'] }]) ∧ st.OneRun := by
  refine (exists_congr fun _ => and_assoc).mpr <| Run.exists_reaches_and
    [.record 1 true, .heartbeat 1 0, .begin 1 .patch ['a'], .insert 0 0 .ok, .crash 0,
      .begin 2 .patch ['b'], .insert 1 61 .ok, .lookup 1 true, .judge 1 61 .ok,
      .takeOver 1 61 .ok, .fetch 1, .write 1 .ok, .verify 1 true, .settle 1 .ok] _
    (by decide +kernel) fun st hrun _ => ?_
  exact one_run_of_reaches hrun

/-- Three ways to the sections of two runs: a run pauses after its claim until its lease has run
out, and writes when it wakes; a run stops between its write and its settlement, and the next
has read the document before that write; a run cannot read the document after its write and
releases its claim. -/
theorem sections_of_two_runs :
    (∃ st, Reaches (State.step 60)
      (fun st l => ∀ run ∈ st.ended l, ∀ a ∈ st.sections, a.runID ≠ run)
      (.start note) st ∧ st.ShowsTwo) ∧
    (∃ st, Reaches (State.step 60)
      (fun st l => ∀ run ∈ st.ended l, ∀ call ∈ st.calls,
        call.stage.writes → call.runID ≠ run)
      (.start note) st ∧ st.ShowsTwo) ∧
    ∃ st, Reaches (State.step 60) (fun _ l => (l matches .takeOver _ _ _) = false)
      (.start note) st ∧ st.ShowsTwo := by
  refine ⟨?_, ?_, ?_⟩
  · exact Run.exists_reaches
      [Label.record 1 true, Label.heartbeat 1 0, Label.begin 1 .patch ['a'],
        Label.insert 0 0 .ok, Label.begin 2 .patch ['b'], Label.insert 1 61 .ok,
        Label.lookup 1 true, Label.judge 1 61 .ok, Label.takeOver 1 61 .ok, Label.fetch 1,
        Label.write 1 .ok, Label.verify 1 true, Label.settle 1 .ok, Label.fetch 0,
        Label.write 0 .ok] _ (by decide +kernel)
  · exact Run.exists_reaches
      [Label.record 1 true, Label.heartbeat 1 0, Label.begin 1 .patch ['a'],
        Label.insert 0 0 .ok, Label.begin 2 .patch ['b'], Label.insert 1 1 .ok,
        Label.lookup 1 true, Label.fetch 0, Label.write 0 .ok, Label.crash 0,
        Label.record 1 false, Label.judge 1 2 .ok, Label.takeOver 1 2 .ok, Label.fetch 1,
        Label.write 1 .ok] _ (by decide +kernel)
  · exact Run.exists_reaches
      [Label.begin 1 .patch ['a'], Label.insert 0 0 .ok, Label.fetch 0, Label.write 0 .ok,
        Label.verify 0 false, Label.settle 0 .ok, Label.begin 2 .patch ['b'],
        Label.insert 1 0 .ok, Label.fetch 1, Label.write 1 .ok] _ (by decide +kernel)

end Flow.Ports.LoopAppends
