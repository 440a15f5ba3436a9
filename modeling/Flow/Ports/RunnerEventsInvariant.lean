import Flow.Ports.CodingMoves
import Flow.Ports.RunnerEvents

/-!
# Events take effect, once

A call notes what an event changes in its patch; the patch is written when all
events are completed.  So the events that are completed before a call stops
take effect only if their changes are not lost with its patch.

`Sound` is what a run keeps in which failures are spared: the events that are
completed are a first part of the batch, what they change is in the patch of
the call under way, and nothing is when no call is.
-/

namespace Flow.Ports.Events

open List Option Flow.Verified Run Slots Table
open Flow.Ports.Coding (Time Duration Session SessionPatch Service writeDocument
  writeDocument_field)

/-! ## What the patch notes -/

def RunnerEvent.NotedBy (patch : SessionPatch) (event : RunnerEvent) : Prop :=
  (event.type = .plan → patch.plan = some event.planSteps) ∧
    (event.type = .diff → patch.diffs = some event.diffs) ∧
    (event.type = .response → patch.summary = event.summary) ∧
    (event.type = .status → event.phase = "running" → patch.running = true)

section Patch

variable {patch : SessionPatch} {event other : RunnerEvent} {session : Session} {now : Time}

theorem apply_patch (event : RunnerEvent) (session : Session) (now : Time) (patch : SessionPatch) :
    (event.apply session now patch).1.plan =
        (if event.type = .plan then some event.planSteps else patch.plan) ∧
      (event.apply session now patch).1.diffs =
        (if event.type = .diff then some event.diffs else patch.diffs) ∧
      (event.apply session now patch).1.summary =
        (if event.type = .response then event.summary else patch.summary) ∧
      (event.apply session now patch).1.running =
        (patch.running || event.type = .status && event.phase = "running") := by
  fun_cases RunnerEvent.apply event session now patch
  case case6 | case7 =>
    by_cases hphase : event.phase = "running"
    all_goals simp +zetaDelta [*]
  all_goals simp [*]

theorem notedBy_apply (event : RunnerEvent) (session : Session) (now : Time)
    (patch : SessionPatch) : event.NotedBy (event.apply session now patch).1 := by
  obtain ⟨hplan, hdiffs, hsummary, hrunning⟩ := apply_patch event session now patch
  refine ⟨fun h => ?_, fun h => ?_, fun h => ?_, fun h hphase => ?_⟩
  · rw [hplan, if_pos h]
  · rw [hdiffs, if_pos h]
  · rw [hsummary, if_pos h]
  · simp [hrunning, h, hphase]

theorem notedBy_apply_of_ne (h : other.NotedBy patch) (htype : other.type ≠ event.type) :
    other.NotedBy (event.apply session now patch).1 := by
  obtain ⟨hplan, hdiffs, hsummary, hrunning⟩ := apply_patch event session now patch
  refine ⟨fun hother => ?_, fun hother => ?_, fun hother => ?_, fun hother hphase => ?_⟩
  · rw [hplan, if_neg (hother ▸ htype.symm)]
    exact h.1 hother
  · rw [hdiffs, if_neg (hother ▸ htype.symm)]
    exact h.2.1 hother
  · rw [hsummary, if_neg (hother ▸ htype.symm)]
    exact h.2.2.1 hother
  · rw [hrunning, h.2.2.2 hother hphase, Bool.true_or]

theorem patch_of_empty (h : patchEmpty patch) :
    patch.plan = none ∧ patch.diffs = none ∧ patch.summary = "" ∧ patch.running = false := by
  simp only [patchEmpty, Bool.and_eq_true, Bool.not_eq_true', decide_eq_true_eq] at h
  obtain ⟨⟨⟨⟨⟨⟨hplan, hdiffs⟩, hsummary⟩, _⟩, _⟩, hrunning⟩, _⟩ := h
  exact ⟨hplan, hdiffs, hsummary, hrunning⟩

theorem notedBy_of_empty (hempty : patchEmpty patch) (h : event.NotedBy patch) :
    event.NotedBy {} := by
  obtain ⟨hplan, hdiffs, hsummary, hrunning⟩ := patch_of_empty hempty
  unfold RunnerEvent.NotedBy at h
  rw [hplan, hdiffs, hsummary, hrunning] at h
  exact h

theorem shownBy_of_empty (hempty : patchEmpty patch) (h : event.NotedBy patch) (s : Session) :
    event.ShownBy s := by
  replace h := notedBy_of_empty hempty h
  refine ⟨fun htype => ?_, fun htype => ?_, fun htype hne => ?_, fun htype hphase => ?_⟩
  · cases h.1 htype
  · cases h.2.1 htype
  · exact absurd (h.2.2.1 htype).symm hne
  · cases h.2.2.2 htype hphase

theorem patchApply_fields (svc : Service) (patch : SessionPatch) (now : Time) (s : Session) :
    (svc.patchApply patch now s).plan = patch.plan.getD s.plan ∧
      (svc.patchApply patch now s).diffs = patch.diffs.getD s.diffs ∧
      (svc.patchApply patch now s).summary =
        (if patch.summary ≠ "" then patch.summary else s.summary) ∧
      (patch.running → (svc.patchApply patch now s).phase ≠ .setup) := by
  have hrunning : (svc.patchRunning patch now s).plan = patch.plan.getD s.plan ∧
      (svc.patchRunning patch now s).diffs = patch.diffs.getD s.diffs ∧
      (svc.patchRunning patch now s).summary =
        (if patch.summary ≠ "" then patch.summary else s.summary) ∧
      (patch.running = true → (svc.patchRunning patch now s).phase ≠ .setup) := by
    unfold Service.patchRunning
    dsimp only
    split
    · refine ⟨rfl, rfl, rfl, fun _ hphase => ?_⟩
      cases hphase
    · rename_i hnot
      exact ⟨rfl, rfl, rfl, fun hrun hphase => hnot ⟨hrun, hphase⟩⟩
  unfold Service.patchApply
  dsimp only
  split
  · refine ⟨hrunning.1, hrunning.2.1, hrunning.2.2.1, fun _ hphase => ?_⟩
    cases hphase
  · exact hrunning

/-- What the patch notes is shown once it is written. -/
theorem shownBy_of_notedBy (svc : Service) (s : Session) (h : event.NotedBy patch) :
    event.ShownBy (writeDocument s (svc.patchApply patch now s)) := by
  obtain ⟨hplan, hdiffs, hsummary, hphase⟩ := patchApply_fields svc patch now s
  refine ⟨fun htype => ?_, fun htype => ?_, fun htype hne => ?_, fun htype hrun => ?_⟩
  · rw [writeDocument_field Coding.Session.plan fun _ _ _ _ => rfl, hplan, h.1 htype]
    rfl
  · rw [writeDocument_field Coding.Session.diffs fun _ _ _ _ => rfl, hdiffs, h.2.1 htype]
    rfl
  · rw [writeDocument_field Coding.Session.summary fun _ _ _ _ => rfl, hsummary, h.2.2.1 htype,
      if_pos hne]
  · rw [writeDocument_field Coding.Session.phase fun _ _ _ _ => rfl]
    exact hphase (h.2.2.2 htype hrun)

end Patch

section Latest

variable {p q : RunnerEvent → Prop} {events : List RunnerEvent} {event : RunnerEvent}

theorem Latest.mono (h : Latest p events) (hpq : ∀ e, p e → q e) : Latest q events := by
  induction events with
  | nil => trivial
  | cons head rest ih => exact ⟨h.1.imp_right (hpq head), ih h.2⟩

/-- One more event: it holds of that one, and still of the events of other
types. -/
theorem Latest.snoc (h : Latest p events) (hnew : q event)
    (hkeep : ∀ e, e.type ≠ event.type → p e → q e) : Latest q (events ++ [event]) := by
  induction events with
  | nil => exact ⟨.inr hnew, trivial⟩
  | cons head rest ih =>
    refine ⟨?_, ih h.2⟩
    by_cases htype : head.type = event.type
    · exact .inl ⟨event, mem_append_right _ mem_cons_self, htype.symm⟩
    · rcases h.1 with ⟨later, hlater, hsame⟩ | hhead
      · exact .inl ⟨later, mem_append_left _ hlater, hsame⟩
      · exact .inr (hkeep head htype hhead)

end Latest

/-! ## The events that are completed -/

/-- The events `done` are completed, and nothing was done with the events
`left`. -/
structure Stands (rows : List EventRow) (activities : List (String × Activity))
    (done left : List RunnerEvent) : Prop where
  completed : ∀ e ∈ done, ∃ row, lookup EventRow.eventID rows e.id = some row ∧ row.completed
  fresh : ∀ e ∈ left,
    lookup EventRow.eventID rows e.id = none ∧ activitiesOf activities e.id = 0

section Stands

variable {rows : List EventRow} {activities : List (String × Activity)}
  {done left : List RunnerEvent} {event : RunnerEvent} {now : Time}

theorem claim_completed {row : EventRow}
    (h : lookup EventRow.eventID rows event.id = some row) (hrow : row.completed) :
    claimRunnerEvent rows event.id now = (false, rows) := by
  unfold claimRunnerEvent
  rw [h]
  simp [hrow]

theorem claim_fresh (h : lookup EventRow.eventID rows event.id = none) :
    claimRunnerEvent rows event.id now =
      (true, rows ++ [{ eventID := event.id, claimedAt := millis now }]) := by
  unfold claimRunnerEvent
  rw [h]

theorem Stands.claim (h : Stands rows activities done (event :: left))
    (hids : ∀ e ∈ left, e.id ≠ event.id) (row : EventRow) (hrow : row.eventID = event.id) :
    Stands (rows ++ [row]) activities done left ∧
      lookup EventRow.eventID (rows ++ [row]) event.id = some row := by
  refine ⟨⟨fun e he => ?_, fun e he => ?_⟩, ?_⟩
  · obtain ⟨stored, hstored, hcompleted⟩ := h.completed e he
    exact ⟨stored, lookup_append_of_some _ hstored, hcompleted⟩
  · obtain ⟨hnone, hcount⟩ := h.fresh e (mem_cons_of_mem _ he)
    have hne : row.eventID ≠ e.id := hrow ▸ (hids e he).symm
    exact ⟨(lookup_append_singleton_ne hne).trans hnone, hcount⟩
  · have hnone := (h.fresh event mem_cons_self).1
    rw [← hrow] at hnone ⊢
    apply lookup_append_singleton
    intro hmem
    obtain ⟨stored, hstored, hkey⟩ := mem_map.1 hmem
    have hfound := find?_eq_none.1 hnone stored hstored
    simp [hkey] at hfound

theorem lookup_complete (activityID : Option Nat) (id : String) :
    lookup EventRow.eventID (completeRunnerEvent rows event.id activityID) id =
      (lookup EventRow.eventID rows id).map fun row =>
        if row.eventID = event.id then { row with activityID, completed := true } else row := by
  apply lookup_map
  intro row
  split <;> rfl

theorem Stands.complete (h : Stands rows activities done left)
    (hevent : ∃ row, lookup EventRow.eventID rows event.id = some row) (activityID : Option Nat) :
    Stands (completeRunnerEvent rows event.id activityID) activities (done ++ [event]) left := by
  refine ⟨fun e he => ?_, fun e he => ?_⟩
  · rcases mem_append.1 he with he | he
    · obtain ⟨row, hrow, hcompleted⟩ := h.completed e he
      rw [lookup_complete, hrow, map_some]
      refine ⟨_, rfl, ?_⟩
      split
      · rfl
      · exact hcompleted
    · rw [mem_singleton.1 he]
      obtain ⟨row, hrow⟩ := hevent
      rw [lookup_complete, hrow, map_some, if_pos (key_of_lookup hrow)]
      exact ⟨_, rfl, rfl⟩
  · obtain ⟨hnone, hcount⟩ := h.fresh e he
    rw [lookup_complete, hnone]
    exact ⟨rfl, hcount⟩

theorem activitiesOf_append (activity : Activity) (id : String) :
    activitiesOf (activities ++ [(event.id, activity)]) id =
      activitiesOf activities id + if event.id = id then 1 else 0 := by
  unfold activitiesOf
  rw [countP_append]
  simp

theorem Stands.append (h : Stands rows activities done left)
    (hids : ∀ e ∈ left, e.id ≠ event.id) (activity : Activity) :
    Stands rows (activities ++ [(event.id, activity)]) done left := by
  refine ⟨h.completed, fun e he => ?_⟩
  obtain ⟨hnone, hcount⟩ := h.fresh e he
  refine ⟨hnone, ?_⟩
  rw [activitiesOf_append, hcount, if_neg (hids e he).symm]

end Stands

/-! ## What a spared run keeps -/

section Knows

variable (batch : Batch) (rows : List EventRow) (activities : List (String × Activity))
  (patch : SessionPatch)

/-- A call is at `event`, which it has claimed; `rest` is still to come. -/
structure Working (event : RunnerEvent) (rest : List RunnerEvent) : Prop where
  claimed : ∃ row, lookup EventRow.eventID rows event.id = some row
  noted : ∃ done, batch.mine = done ++ event :: rest ∧ Stands rows activities done rest ∧
    Latest (RunnerEvent.NotedBy patch) (done ++ [event])

/-- A call has come to the events `rest`, of which it will find `skipped` completed; its patch
notes what completed ones change. -/
def Passing (rest : List RunnerEvent) : Prop :=
  ∃ before skipped left, batch.mine = before ++ skipped ++ left ∧ rest = skipped ++ left ∧
    Stands rows activities (before ++ skipped) left ∧
    Latest (RunnerEvent.NotedBy patch) (before ++ skipped)

/-- What is known at each store call. -/
def Knows : Stage → Prop
  | .claiming event rest => Passing batch rows activities patch (event :: rest)
  | .anchoring event rest _ _ | .appending event rest _ _ _ | .rereading event rest _ _ _ =>
    Working batch rows activities patch event rest ∧ activitiesOf activities event.id = 0
  | .completing event rest _ => Working batch rows activities patch event rest
  | .updating => Passing batch rows activities patch []

end Knows

/-- What holds whatever the call under way knows. -/
structure Kept (batch : Batch) (w : Intake) : Prop where
  once : ∀ id, activitiesOf w.activities id ≤ 1
  reflected : Reflected batch w

/-- The events that are completed are a first part of the batch, and what they
change is noted by the call under way, or shown. -/
structure Sound (batch : Batch) (w : Intake) : Prop extends Kept batch w where
  calling : ∀ a, w.attempt = some a →
    batch.serves a.session ∧ Knows batch w.rows w.activities a.patch a.stage
  resting : w.attempt = none → w.outcome = none →
    Passing batch w.rows w.activities {} batch.mine

section Steps

variable {svc : Service} {batch : Batch} {w w' : Intake} {a : Attempt} {patch : SessionPatch}
  {event : RunnerEvent} {rest : List RunnerEvent}

/-- A call that stops with an empty patch loses nothing. -/
theorem Passing.restart (h : Passing batch w.rows w.activities patch rest)
    (hempty : patchEmpty patch) :
    Passing batch w.rows w.activities {} batch.mine := by
  obtain ⟨before, skipped, left, hmine, _, hstands, hnoted⟩ := h
  refine ⟨[], before ++ skipped, left, by simpa using hmine, hmine, hstands, ?_⟩
  exact hnoted.mono fun e => notedBy_of_empty hempty

theorem sound_proceed (h : Kept batch w) (session : Session) (result : EventsResult)
    (hserves : batch.serves session) (hpassing : Passing batch w.rows w.activities patch rest) :
    Sound batch (w.proceed session patch result rest) := by
  unfold Intake.proceed
  cases rest with
  | cons event rest =>
    refine ⟨{ h with }, fun a ha => ?_, fun hnone => ?_⟩
    · cases ha
      exact ⟨hserves, hpassing⟩
    · cases hnone
  | nil =>
    dsimp only
    split
    · rename_i hempty
      refine ⟨⟨h.once, fun entry hentry => ?_⟩, fun a ha => ?_, fun _ hnone => ?_⟩
      · cases hentry
        obtain ⟨before, skipped, left, hmine, hrest, _, hnoted⟩ := hpassing
        obtain ⟨rfl, rfl⟩ := append_eq_nil_iff.1 hrest.symm
        rw [hmine, append_nil]
        exact hnoted.mono fun e he => shownBy_of_empty hempty he _
      · cases ha
      · cases hnone
    · refine ⟨{ h with }, fun a ha => ?_, fun hnone => ?_⟩
      · cases ha
        exact ⟨hserves, hpassing⟩
      · cases hnone

theorem sound_stage (h : Kept batch w) (hserves : batch.serves a.session) {stage : Stage}
    (hknows : Knows batch w.rows w.activities patch stage) :
    Sound batch { w with attempt := some { a with patch, stage } } := by
  refine ⟨{ h with }, fun a' ha' => ?_, fun hnone => ?_⟩
  · cases ha'
    exact ⟨hserves, hknows⟩
  · cases hnone

theorem mine_ids (hids : (batch.events.map RunnerEvent.id).Nodup) {done left : List RunnerEvent}
    (hmine : batch.mine = done ++ event :: left) : ∀ e ∈ left, e.id ≠ event.id := by
  have hnodup : (batch.mine.map RunnerEvent.id).Nodup :=
    hids.sublist (filter_sublist.map _)
  rw [hmine, map_append] at hnodup
  have htail := (nodup_append.1 hnodup).2.1
  intro e he heq
  exact (nodup_cons.1 htail).1 (heq ▸ mem_map_of_mem he)

theorem sound_applied (h : Kept batch w) (hserves : batch.serves a.session)
    (hclaimed : ∃ row, lookup EventRow.eventID w.rows event.id = some row)
    (hcount : activitiesOf w.activities event.id = 0) {done : List RunnerEvent}
    (hmine : batch.mine = done ++ event :: rest) (hstands : Stands w.rows w.activities done rest)
    (hnoted : Latest (RunnerEvent.NotedBy a.patch) done) :
    Sound batch (w.applied a event rest) := by
  have hworking : Working batch w.rows w.activities
      (event.apply a.session w.now a.patch).1 event rest := by
    refine ⟨hclaimed, done, hmine, hstands, ?_⟩
    exact hnoted.snoc (notedBy_apply event a.session w.now a.patch)
      fun e hne he => notedBy_apply_of_ne he hne
  unfold Intake.applied
  cases happly : event.apply a.session w.now a.patch with
  | mk patch activity =>
    rw [happly] at hworking
    cases activity with
    | none => exact sound_stage h hserves hworking
    | some activity => exact sound_stage h hserves ⟨hworking, hcount⟩

theorem sound_claim (hids : (batch.events.map RunnerEvent.id).Nodup) (h : Kept batch w)
    (hserves : batch.serves a.session)
    (hpassing : Passing batch w.rows w.activities a.patch (event :: rest))
    {reply : Reply} (hreply : reply = .ok ∨ reply = .failed ∧ patchEmpty a.patch) :
    Sound batch (w.claim a event rest reply) := by
  unfold Intake.claim
  rcases hreply with rfl | ⟨rfl, hempty⟩
  · obtain ⟨before, skipped, left, hmine, hrest, hstands, hnoted⟩ := hpassing
    cases skipped with
    | nil =>
      -- The event was not claimed before.
      subst hrest
      obtain ⟨hnone, hcount⟩ := hstands.fresh event mem_cons_self
      rw [claim_fresh hnone]
      obtain ⟨hstands', hrow⟩ := hstands.claim (mine_ids hids hmine)
        { eventID := event.id, claimedAt := millis w.now } rfl
      exact sound_applied { h with } hserves ⟨_, hrow⟩ hcount hmine hstands' hnoted
    | cons head skipped =>
      -- An earlier call has completed it.
      obtain ⟨rfl, rfl⟩ := hrest
      obtain ⟨row, hrow, hcompleted⟩ := hstands.completed event
        (mem_append_right _ mem_cons_self)
      rw [claim_completed hrow hcompleted]
      apply sound_proceed h a.session _ hserves
      refine ⟨before ++ [event], skipped, left, ?_, rfl, ?_, ?_⟩
      · simpa using hmine
      · simpa using hstands
      · simpa using hnoted
  · refine ⟨{ h with }, fun a' ha' => ?_, fun _ _ => hpassing.restart hempty⟩
    cases ha'

theorem sound_append (hids : (batch.events.map RunnerEvent.id).Nodup) (h : Kept batch w)
    (hserves : batch.serves a.session)
    (hworking : Working batch w.rows w.activities a.patch event rest)
    (hcount : activitiesOf w.activities event.id = 0) (activity : Activity) (left version : Nat)
    {reply : Reply} (hreply : reply ≠ .unreported) :
    Sound batch (w.append a event rest activity left version reply) := by
  unfold Intake.append
  split
  · exact sound_stage h hserves ⟨hworking, hcount⟩
  · rename_i hgoes
    rw [not_or] at hgoes
    have hok : reply = .ok := by
      cases reply with
      | ok => rfl
      | failed => exact absurd rfl hgoes.1
      | unreported => exact absurd rfl hreply
    rw [if_pos hok]
    obtain ⟨done, hmine, hstands, hnoted⟩ := hworking.noted
    have honce : ∀ id, activitiesOf (w.activities ++ [(event.id, activity)]) id ≤ 1 := by
      intro id
      rw [activitiesOf_append]
      split
      · rename_i heq
        rw [← heq, hcount]
      · exact h.once id
    have hstands' := hstands.append (mine_ids hids hmine) activity
    have hworking' : Working batch w.rows (w.activities ++ [(event.id, activity)]) a.patch event
        rest := ⟨hworking.claimed, done, hmine, hstands', hnoted⟩
    refine ⟨⟨honce, h.reflected⟩, fun a' ha' => ?_, fun hnone => ?_⟩
    · cases ha'
      exact ⟨hserves, hworking'⟩
    · cases hnone

theorem sound_reread (h : Kept batch w) (hserves : batch.serves a.session)
    (hworking : Working batch w.rows w.activities a.patch event rest)
    (hcount : activitiesOf w.activities event.id = 0) (activity : Activity) (left version : Nat)
    (reply : Reply) : Sound batch (w.reread a event rest activity left version reply) := by
  unfold Intake.reread
  split
  · exact sound_stage h hserves hworking
  · split
    · exact sound_stage h hserves hworking
    · exact sound_stage h hserves hworking
    · exact sound_stage h hserves ⟨hworking, hcount⟩

theorem sound_complete (h : Kept batch w) (hserves : batch.serves a.session)
    (hworking : Working batch w.rows w.activities a.patch event rest) (activityID : Option Nat) :
    Sound batch (w.complete a event rest activityID .ok) := by
  obtain ⟨done, hmine, hstands, hnoted⟩ := hworking.noted
  refine sound_proceed (w := { w with rows := completeRunnerEvent w.rows event.id activityID })
    { h with } a.session _ hserves ?_
  refine ⟨done ++ [event], [], rest, ?_, rfl, ?_, ?_⟩
  · simpa using hmine
  · rw [append_nil]
    exact hstands.complete hworking.claimed activityID
  · rw [append_nil]
    exact hnoted

theorem sound_update (h : Kept batch w) (hserves : batch.serves a.session)
    (hserved : batch.serves w.session) (hpassing : Passing batch w.rows w.activities a.patch []) :
    Sound batch (w.update svc a .ok) := by
  have hsandbox : w.session.sandboxID = a.session.sandboxID := by
    simp only [Batch.serves, Bool.and_eq_true, decide_eq_true_eq] at hserves hserved
    rw [hserves.1.2, hserved.1.2]
  unfold Intake.update
  rw [if_neg (not_not.2 hsandbox)]
  refine ⟨⟨h.once, fun entry hentry => ?_⟩, fun a' ha' => ?_, fun _ hnone => ?_⟩
  · cases hentry
    obtain ⟨before, skipped, left, hmine, hrest, _, hnoted⟩ := hpassing
    obtain ⟨rfl, rfl⟩ := append_eq_nil_iff.1 hrest.symm
    rw [hmine, append_nil]
    exact hnoted.mono fun e he => shownBy_of_notedBy svc w.session he
  · cases ha'
  · cases hnone

theorem sound_post (h : Sound batch w) (hattempt : w.attempt = none) (hout : w.outcome = none)
    (hserved : batch.serves w.session) : Sound batch (w.post batch) := by
  have hparts := hserved
  simp only [Batch.serves, Bool.and_eq_true, decide_eq_true_eq] at hparts
  unfold Intake.post
  split
  · exact h
  · rw [if_neg (by simp [hparts.1.1, hparts.1.2])]
    have hmine : (batch.events.filter fun event => !event.ofOtherTurn w.session.currentTurnID) =
        batch.mine := by rw [hparts.2]; rfl
    rw [hmine]
    exact sound_proceed h.toKept w.session _ hserved (h.resting hattempt hout)

end Steps

/-! ## Spared runs -/

/-- A call leaves the session alone until its update, and is under way until it
has succeeded. -/
structure Frame (w w' : Intake) : Prop where
  session : w'.session = w.session
  served : w'.served = w.served
  outcome : w'.outcome = none → w.outcome = none
  calling : ∀ a, w'.attempt = some a → w'.outcome = w.outcome

section Run

variable {svc : Service} {batch : Batch} {w w' : Intake} {a : Attempt} {event : RunnerEvent}
  {rest : List RunnerEvent} {label : Label}

theorem frame_of_outcome (hsession : w'.session = w.session) (hserved : w'.served = w.served)
    (houtcome : w'.outcome = w.outcome) : Frame w w' :=
  ⟨hsession, hserved, fun hnone => houtcome ▸ hnone, fun _ _ => houtcome⟩

theorem frame_proceed (session : Session) (patch : SessionPatch) (result : EventsResult)
    (rest : List RunnerEvent) : Frame w (w.proceed session patch result rest) := by
  unfold Intake.proceed
  split
  · exact frame_of_outcome rfl rfl rfl
  · split
    · refine ⟨rfl, rfl, fun hnone => ?_, fun a ha => ?_⟩
      · cases hnone
      · cases ha
    · exact frame_of_outcome rfl rfl rfl

theorem frame_claim (reply : Reply) : Frame w (w.claim a event rest reply) := by
  unfold Intake.claim
  split
  · exact frame_of_outcome rfl rfl rfl
  · dsimp only
    split
    · exact frame_of_outcome rfl rfl rfl
    · split
      · unfold Intake.applied
        split <;> exact frame_of_outcome rfl rfl rfl
      · exact frame_proceed _ _ _ _

theorem frame_append (activity : Activity) (left version : Nat) (reply : Reply) :
    Frame w (w.append a event rest activity left version reply) := by
  unfold Intake.append
  split
  · exact frame_of_outcome rfl rfl rfl
  · split <;> exact frame_of_outcome rfl rfl rfl

theorem frame_reread (activity : Activity) (left version : Nat) (reply : Reply) :
    Frame w (w.reread a event rest activity left version reply) := by
  unfold Intake.reread
  split
  · exact frame_of_outcome rfl rfl rfl
  · split <;> exact frame_of_outcome rfl rfl rfl

theorem frame_complete (activityID : Option Nat) (reply : Reply) :
    Frame w (w.complete a event rest activityID reply) := by
  unfold Intake.complete
  split
  · exact frame_of_outcome rfl rfl rfl
  · split
    · have hframe := frame_proceed (w := { w with
        rows := completeRunnerEvent w.rows event.id activityID }) a.session a.patch
        { a.result with accepted := a.result.accepted + 1 } rest
      exact { hframe with }
    · exact frame_of_outcome rfl rfl rfl

theorem frame_post (hattempt : w.attempt = none) : Frame w (w.post batch) := by
  unfold Intake.post
  split
  · exact frame_of_outcome rfl rfl rfl
  · split
    · refine ⟨rfl, rfl, fun hnone => ?_, fun a ha => ?_⟩
      · cases hnone
      · rw [hattempt] at ha
        cases ha
    · exact frame_proceed _ _ _ _

/-- What a spared run keeps while the session serves the batch. -/
structure Holds (batch : Batch) (w : Intake) : Prop where
  sound : Sound batch w
  calling : ∀ a, w.attempt = some a → w.outcome = none
  serves : w.outcome = none → batch.serves w.session

theorem Frame.holds (hframe : Frame w w') (h : Holds batch w) (hout : w.outcome = none)
    (hsound : Sound batch w') : Holds batch w' := by
  refine ⟨hsound, fun a ha => (hframe.calling a ha).trans hout, fun hnone => ?_⟩
  rw [hframe.session]
  exact h.serves (hframe.outcome hnone)

theorem update_ok (svc : Service) (w : Intake) (a : Attempt) :
    (w.update svc a .ok).attempt = none ∧ (w.update svc a .ok).outcome ≠ none := by
  exact ⟨rfl, some_ne_none _⟩

theorem update_served (svc : Service) (w : Intake) (a : Attempt) (reply : Reply) :
    (w.update svc a reply).served = w.served := by
  unfold Intake.update
  split
  · rfl
  · split <;> split <;> rfl

theorem served_of_step (hstep : w.step svc batch label = some w') (h : w'.served) : w.served := by
  revert hstep
  fun_cases Intake.step svc batch w label
  all_goals rintro ⟨⟩
  next => exact h
  next => exact (Bool.and_eq_true_iff.1 h).1
  next => exact h
  next ha _ =>
    split at h
    · exact (frame_post ha).served ▸ h
    · exact h
  next => exact (frame_claim _).served ▸ h
  next =>
    split at h
    · exact h
    · exact h
  next => exact (frame_append _ _ _ _).served ▸ h
  next => exact (frame_reread _ _ _ _).served ▸ h
  next => exact (frame_complete _ _).served ▸ h
  next => exact update_served svc w _ _ ▸ h

/-- Every spared step keeps what holds while the session serves the batch. -/
theorem holds_step (hids : (batch.events.map RunnerEvent.id).Nodup) (h : Holds batch w)
    (hserved : w'.served) (hok : Spared w label)
    (hstep : w.step svc batch label = some w') : Holds batch w' := by
  have hkept := h.sound.toKept
  have hknows {a : Attempt} (ha : w.attempt = some a) {stage : Stage} (hstage : a.stage = stage) :
      Knows batch w.rows w.activities a.patch stage := hstage ▸ (h.sound.calling a ha).2
  have hserves {a : Attempt} (ha : w.attempt = some a) := (h.sound.calling a ha).1
  revert hstep
  fun_cases Intake.step svc batch w label
  all_goals rintro ⟨⟩
  next =>
    exact ⟨⟨{ hkept with }, h.sound.calling, h.sound.resting⟩, h.calling, h.serves⟩
  next =>
    exact ⟨⟨{ hkept with }, h.sound.calling, h.sound.resting⟩, h.calling,
      fun _ => (Bool.and_eq_true_iff.1 hserved).2⟩
  next =>
    exact ⟨⟨{ hkept with }, h.sound.calling, h.sound.resting⟩, h.calling, h.serves⟩
  next ha hout =>
    rw [Bool.not_eq_true, isSome_eq_false_iff, isNone_iff_eq_none] at hout
    split
    · exact (frame_post ha).holds h hout (sound_post h.sound ha hout (h.serves hout))
    · exact h
  next ha _ _ hstage =>
    exact (frame_claim _).holds h (h.calling _ ha)
      (sound_claim hids hkept (hserves ha) (hknows ha hstage)
        (by simpa [Spared, Intake.spared, ha] using hok))
  next ha _ _ _ _ hstage =>
    split
    · refine Frame.holds (w := w) (frame_of_outcome rfl rfl rfl) h (h.calling _ ha) ?_
      have hworking := hknows ha hstage
      exact sound_stage hkept (hserves ha) hworking
    · -- the anchor could not be read
      refine Frame.holds (w := w) (frame_of_outcome rfl rfl rfl) h (h.calling _ ha) ?_
      exact sound_stage hkept (hserves ha) (hknows ha hstage).1
  next ha _ _ _ _ _ hstage =>
    exact (frame_append _ _ _ _).holds h (h.calling _ ha)
      (sound_append hids hkept (hserves ha) (hknows ha hstage).1 (hknows ha hstage).2 _ _ _
        (by simpa [Spared, Intake.spared] using hok))
  next ha _ _ _ _ _ hstage =>
    exact (frame_reread _ _ _ _).holds h (h.calling _ ha)
      (sound_reread hkept (hserves ha) (hknows ha hstage).1 (hknows ha hstage).2 _ _ _ _)
  next reply a ha _ _ _ hstage =>
    have hreply : reply = .ok := by simpa [Spared, Intake.spared] using hok
    subst hreply
    exact (frame_complete _ .ok).holds h (h.calling _ ha)
      (sound_complete hkept (hserves ha) (hknows ha hstage) _)
  next reply a ha hstage =>
    have hreply : reply = .ok := by simpa [Spared, Intake.spared] using hok
    subst hreply
    obtain ⟨hattempt, houtcome⟩ := update_ok svc w a
    refine ⟨sound_update hkept (hserves ha) (h.serves (h.calling a ha)) (hknows ha hstage),
      fun a' ha' => ?_, fun hnone => absurd hnone houtcome⟩
    cases ha'

theorem holds_start {rows : List EventRow} {session : Session}
    (hids : ∀ event ∈ batch.events, lookup EventRow.eventID rows event.id = none)
    (hserves : batch.serves session) (version : Nat) (now : Time) :
    Holds batch (Intake.start batch session rows version now) := by
  have hpassing : Passing batch rows [] {} batch.mine := by
    refine ⟨[], [], batch.mine, rfl, rfl, ⟨fun e he => ?_, fun e he => ?_⟩, trivial⟩
    · cases he
    · exact ⟨hids e (mem_of_mem_filter he), rfl⟩
  refine ⟨⟨⟨fun _ => Nat.zero_le _, fun entry hentry => ?_⟩, fun a ha => ?_, fun _ _ => hpassing⟩,
    fun a ha => ?_, fun _ => hserves⟩
  · cases hentry
  · cases ha
  · cases ha

end Run

/-! ## Main results -/

/-- **Events take effect, once.** When the ids of a batch are distinct and new, claims fail only
without effect and while the patch is empty, appends do not fail after their effect, and claims
are completed and the session updated without failure: after a call that succeeded the session
shows every event of the turn that is not superseded in the batch, and no event has two
activities, while the session serves the sandbox and the turn. -/
theorem intake_of_reaches (svc : Service) (batch : Batch) (session : Session) (rows : List EventRow)
    (version : Nat) (now : Time) (hdistinct : (batch.events.map RunnerEvent.id).Nodup)
    (hnew : ∀ event ∈ batch.events, lookup EventRow.eventID rows event.id = none) (w : Intake)
    (hrun : Reaches (Intake.step svc batch) Spared
      (Intake.start batch session rows version now) w) (hserved : w.served = true)
    : Reflected batch w ∧ Once batch w := by
  have hholds : w.served = true → Holds batch w := by
    apply hrun.invariant (P := fun w => w.served = true → Holds batch w)
    · intro w label w' h hok hstep hserved'
      exact holds_step hdistinct (h (served_of_step hstep hserved')) hserved' hok hstep
    · intro hserves
      exact holds_start hnew hserves version now
  have hsound := (hholds hserved).sound
  exact ⟨hsound.reflected, fun event _ => hsound.once event.id⟩

def workingSession : Session :=
  { id := "s-1", workspaceKey := "acme", phase := .running, sandboxID := "sb-1"
    currentTurnID := "turn-1" }

def thoughtAndPlan : Batch :=
  { sandboxID := "sb-1"
    turnID := "turn-1"
    events :=
      [{ id := "e-1", turnID := "turn-1", type := .thought, body := "Reading" },
        { id := "e-2", turnID := "turn-1", type := .plan, plan := [⟨"Fix", "in_progress"⟩] }] }

def thought : List Label := [.post .ok, .claim .ok, .task .ok, .append .ok]

/-- A call that fails between the two events, and the next one. -/
def sparedRun : List Label :=
  thought ++ [.complete .ok, .claim .failed, .post .ok, .claim .ok, .claim .ok, .complete .ok,
    .update .ok]

/-- The call that claims the plan fails; the next one shows it. -/
theorem intake_after_failure :
    ∃ w, Reaches (Intake.step Coding.defaultService thoughtAndPlan) Spared
        (Intake.start thoughtAndPlan workingSession [] 0 0) w ∧
      (w.served = true ∧ w.outcome.isSome ∧ w.activities.length = 1) ∧
      Reflected thoughtAndPlan w ∧ Once thoughtAndPlan w := by
  refine exists_reaches_and sparedRun _ (by decide) fun w hrun hw => ?_
  exact intake_of_reaches Coding.defaultService thoughtAndPlan workingSession [] 0 0
    (by decide) (by decide) w hrun hw.1

/-- **Events are lost, or repeated.** When the update fails, the plan is completed and not
written, and the next call takes it for a duplicate. When completing the thought fails, a call
after the claim is stale shows it again. -/
theorem events_lost_or_repeated :
    (∃ w, Reaches (Intake.step Coding.defaultService thoughtAndPlan) Unrestricted
        (Intake.start thoughtAndPlan workingSession [] 0 0) w ∧
      (w.served = true ∧ w.outcome.isSome) ∧ ¬Reflected thoughtAndPlan w) ∧
    ∃ w, Reaches (Intake.step Coding.defaultService thoughtAndPlan) Unrestricted
        (Intake.start thoughtAndPlan workingSession [] 0 0) w ∧
      (w.served = true ∧ w.outcome.isSome) ∧ ¬Once thoughtAndPlan w := by
  constructor
  · exact exists_reaches
      (thought ++ [.complete .ok, .claim .ok, .complete .ok, .update .failed, .post .ok,
        .claim .ok, .claim .ok]) _ (by decide)
  · exact exists_reaches
      (thought ++ [.complete .failed, .tick 31000000000] ++ thought ++
        [.complete .ok, .claim .ok, .complete .ok, .update .ok]) _ (by decide)

end Flow.Ports.Events
