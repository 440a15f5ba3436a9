import Mathlib.Algebra.Order.Ring.Int
import Flow.Ports.IssueMutationQueue

/-!
# The lineage of an issue holds own versions only

The invariant is about every lineage, every request on its way and every answer
that has not come yet: the versions that they span were produced by the client's own
writes.  Changes are only ever added, so what is own stays own.  An answer spans own
versions when the server has served the request under the condition; the lineage
takes the span in, and an edit that is based on a version of the lineage is sent
over own versions only.
-/

namespace Flow.Ports.IssueMutationQueue

open List Option Flow.Verified Function
open Run (Reaches)

section OwnVersions

variable {changes changes' : List Change} {first middle last : Int}

theorem OwnRun.grows (h : OwnRun changes first last) (hgrows : changes <+: changes') :
    OwnRun changes' first last := by
  intro i hi hlast
  obtain ⟨change, hchange, hown⟩ := h i hi hlast
  obtain ⟨more, rfl⟩ := hgrows
  obtain ⟨hlt, _⟩ := List.getElem?_eq_some_iff.mp hchange
  exact ⟨change, by rw [List.getElem?_append_left hlt, hchange], hown⟩

theorem OwnRun.trans (h : OwnRun changes first middle) (h' : OwnRun changes middle last) :
    OwnRun changes first last := by
  intro i hi hlast
  rcases lt_or_ge (i : Int) middle with hlt | hge
  · exact h i hi hlt
  · exact h' i hge hlast

theorem OwnRun.later (h : OwnRun changes first last) (hle : first ≤ middle) :
    OwnRun changes middle last :=
  fun i hi hlast => h i (le_trans hle hi) hlast

theorem ownRun_of_after (h : (after changes first).all Change.own) :
    OwnRun changes first (version changes) := by
  intro i hi hlast
  rw [version] at hlast
  have hlt : i < changes.length := by omega
  refine ⟨changes[i], getElem?_eq_getElem hlt, all_eq_true.mp h _ ?_⟩
  refine mem_drop_iff_getElem.mpr ⟨i - first.toNat, by omega, ?_⟩
  congr 1
  omega

theorem ownRun_of_ownVersion (h : ownVersion changes) :
    OwnRun changes (version changes - 1) (version changes) := by
  intro i hi hlast
  rw [version] at hi hlast
  have hlt : i < changes.length := by omega
  have hi : i = changes.length - 1 := by omega
  refine ⟨changes[i], getElem?_eq_getElem hlt, ?_⟩
  have hget : changes.getLast? = some changes[i] := by
    rw [getLast?_eq_getElem?, ← hi]
    exact getElem?_eq_getElem hlt
  rw [ownVersion, hget] at h
  exact h

theorem append_grows (changes : List Change) (fields : List Nat) (own : Bool) :
    changes <+: append changes fields own := by
  unfold append
  split
  · exact prefix_refl _
  · exact prefix_append _ _

theorem ownVersion_append {fields : List Nat} (h : fields ≠ [] ∨ ownVersion changes) :
    ownVersion (append changes fields true) := by
  unfold append
  split
  · rename_i hnil
    exact h.resolve_left fun hne => hne hnil
  · rw [ownVersion, getLast?_append_cons]
    rfl

theorem ownRun_append {fields : List Nat} (h : OwnRun changes first (version changes)) :
    OwnRun (append changes fields true) first (version (append changes fields true)) := by
  have hkept : OwnRun (append changes fields true) first (version changes) :=
    h.grows (append_grows _ _ _)
  by_cases hnil : fields = []
  · rw [append, if_pos hnil] at hkept ⊢
    exact hkept
  · have hlast : ownVersion (append changes fields true) = true := ownVersion_append (.inl hnil)
    have hown := ownRun_of_ownVersion hlast
    have hversion : version (append changes fields true) = version changes + 1 := by
      rw [append, if_neg hnil, version, length_append]
      rfl
    rw [hversion] at hown ⊢
    rw [add_sub_cancel_right] at hown
    exact hkept.trans hown

end OwnVersions

def Grows (issues issues' : Nat → List Change) : Prop := ∀ id, issues id <+: issues' id

theorem Grows.refl (issues : Nat → List Change) : Grows issues issues :=
  fun _ => prefix_refl _

theorem Grows.trans {a b c : Nat → List Change} (hab : Grows a b) (hbc : Grows b c) : Grows a c :=
  fun id => (hab id).trans (hbc id)

theorem update_grows (issues : Nat → List Change) (id : Nat) (fields : List Nat) (own : Bool) :
    Grows issues (update issues id (append (issues id) fields own)) := by
  intro other
  by_cases h : other = id
  · rw [h, update_self]
    exact append_grows _ _ _
  · simp [update_of_ne h]

theorem raiseAll_grows (issues : Nat → List Change) (others : List (Nat × List Nat)) :
    Grows issues (raiseAll issues others).1 := by
  induction others generalizing issues with
  | nil => exact Grows.refl _
  | cons other others ih => exact (update_grows _ _ _ true).trans (ih _)

theorem serveAll_grows (issues : Nat → List Change) (effects : List Effect) :
    Grows issues (serveAll issues effects).1 := by
  induction effects generalizing issues with
  | nil => exact Grows.refl _
  | cons effect effects ih =>
    exact ((update_grows _ _ _ true).trans (raiseAll_grows _ _)).trans (ih _)

/-! ## Answers span own versions -/

def OwnResult (issues : Nat → List Change) (result : Result) : Prop :=
  OwnRun (issues result.issue) (result.version - 1) result.version

def OwnSpan (issues : Nat → List Change) (result : Result) : Option Int → Prop
  | none => OwnResult issues result
  | some sent => OwnRun (issues result.issue) sent result.version

def OwnWritten (issues : Nat → List Change) (sent : Option Int) (written : Written) : Prop :=
  (∀ result ∈ written.affected, OwnResult issues result) ∧ OwnSpan issues written.result sent

section Answers

variable {issues issues' : Nat → List Change}

theorem OwnResult.grows {result : Result} (h : OwnResult issues result)
    (hgrows : Grows issues issues') : OwnResult issues' result :=
  OwnRun.grows h (hgrows _)

theorem OwnSpan.grows {result : Result} {sent : Option Int} (h : OwnSpan issues result sent)
    (hgrows : Grows issues issues') : OwnSpan issues' result sent := by
  cases sent with
  | none => exact OwnResult.grows h hgrows
  | some sent => exact OwnRun.grows h (hgrows _)

variable {sent : Option Int} {written : Written} {effect : Effect} {effects : List Effect}

theorem OwnWritten.grows (h : OwnWritten issues sent written) (hgrows : Grows issues issues') :
    OwnWritten issues' sent written :=
  ⟨fun result hresult => (h.1 result hresult).grows hgrows, h.2.grows hgrows⟩

theorem ownResult_raise {id : Nat} {fields : List Nat} (h : fields ≠ [] ∨ ownVersion (issues id)) :
    OwnResult (raise issues id fields) ⟨id, version (raise issues id fields id)⟩ := by
  apply ownRun_of_ownVersion
  rw [raise, update_self]
  exact ownVersion_append h

theorem ownResult_raiseAll {others : List (Nat × List Nat)}
    (h : others.all (fun other => other.2 ≠ [])) :
    ∀ result ∈ (raiseAll issues others).2, OwnResult (raiseAll issues others).1 result := by
  induction others generalizing issues with
  | nil => exact nofun
  | cons other others ih =>
    rw [all_cons, Bool.and_eq_true, decide_eq_true_eq] at h
    intro result hresult
    rcases mem_cons.mp hresult with rfl | hresult
    · exact (ownResult_raise (.inl h.1)).grows (raiseAll_grows _ _)
    · exact ih h.2 result hresult

/-- What a served effect reports, when its own result spans own versions. -/
theorem ownWritten_effect (hothers : effect.raisesOthers)
    (hspan : OwnSpan (raise issues effect.issue effect.fields)
      ⟨effect.issue, version (raise issues effect.issue effect.fields effect.issue)⟩ sent) :
    OwnWritten (raiseAll (raise issues effect.issue effect.fields) effect.affected).1 sent
      ⟨⟨effect.issue, version (raise issues effect.issue effect.fields effect.issue)⟩,
        (raiseAll (raise issues effect.issue effect.fields) effect.affected).2⟩ :=
  ⟨ownResult_raiseAll hothers, hspan.grows (raiseAll_grows _ _)⟩

theorem mem_serveAll_cons (h : written ∈ (serveAll issues (effect :: effects)).2) :
    written = ⟨⟨effect.issue, version (raise issues effect.issue effect.fields effect.issue)⟩,
        (raiseAll (raise issues effect.issue effect.fields) effect.affected).2⟩ ∨
      written ∈ (serveAll (raiseAll (raise issues effect.issue effect.fields)
        effect.affected).1 effects).2 := by
  rw [serveAll] at h
  split at h
  · exact mem_cons.mp h
  · exact .inr h

theorem ownWritten_serveAll (hsound : soundEffects issues effects)
    (hothers : effects.all Effect.raisesOthers) :
    ∀ written ∈ (serveAll issues effects).2,
      OwnWritten (serveAll issues effects).1 none written := by
  induction effects generalizing issues with
  | nil => exact nofun
  | cons effect effects ih =>
    rw [soundEffects, Bool.and_eq_true, Bool.or_eq_true, decide_eq_true_eq] at hsound
    rw [all_cons, Bool.and_eq_true] at hothers
    intro written hwritten
    rcases mem_serveAll_cons hwritten with rfl | hwritten
    · have hspan : OwnSpan (raise issues effect.issue effect.fields)
          ⟨effect.issue, version (raise issues effect.issue effect.fields effect.issue)⟩ none :=
        ownResult_raise hsound.1
      exact (ownWritten_effect hothers.1 hspan).grows (serveAll_grows _ _)
    · exact ih hsound.2 hothers.2 written hwritten

theorem ownWritten_serve {id : Nat} {sent : Int} (hissue : effect.issue = id)
    (hothers : effect.raisesOthers) (hown : (after (issues id) sent).all Change.own) :
    ∀ written ∈ (serveAll issues [effect]).2,
      OwnWritten (serveAll issues [effect]).1 (some sent) written := by
  subst hissue
  intro written hwritten
  rcases mem_serveAll_cons hwritten with rfl | hwritten
  · apply ownWritten_effect hothers
    show OwnRun (raise issues effect.issue effect.fields effect.issue) sent (version _)
    rw [raise, update_self]
    exact ownRun_append (ownRun_of_after hown)
  · cases hwritten

end Answers

def OwnLineage (changes : List Change) (lineage : Option Lineage) : Prop :=
  ∀ run, lineage = some run → OwnRun changes run.first run.last

theorem ownLineage_none (changes : List Change) : OwnLineage changes none := nofun

variable {changes : List Change} {lineage : Option Lineage}

theorem ownLineage_some {run : Lineage} (h : OwnRun changes run.first run.last) :
    OwnLineage changes (some run) := by
  intro other hother
  obtain rfl := some.inj hother
  exact h

theorem ownLineage_recordSent {sent version : Int} (h : OwnLineage changes lineage)
    (hspan : OwnRun changes sent version) :
    OwnLineage changes (recordSent lineage sent version) := by
  fun_cases recordSent lineage sent version
  next => exact h
  next run hlast => exact ownLineage_some ((h run rfl).trans (hlast ▸ hspan))
  all_goals exact ownLineage_some hspan

theorem ownLineage_recordUnversioned {version : Int} (h : OwnLineage changes lineage)
    (hspan : OwnRun changes (version - 1) version) :
    OwnLineage changes (recordUnversioned lineage version) := by
  fun_cases recordUnversioned lineage version
  next => exact h
  next run _ hlast => exact ownLineage_some ((h run rfl).trans (hlast ▸ hspan))
  all_goals exact ownLineage_some hspan

/-! ## The invariant -/

def Carries (issues : Nat → List Change) (work : Work) (sent : Option Int) : Prop :=
  match work with
  | .write _ => sent = none
  | .edit id edit =>
    (edit.expected = none ∧ sent = none) ∨
      ∃ base version, edit.expected = some base ∧ sent = some version ∧
        (version = base ∨ base < version ∧ OwnRun (issues id) base version)

structure TaskInv (issues : Nat → List Change) (task : Task) : Prop where
  carries : ∀ sent, task.pending = some sent → Carries issues task.work sent
  answers : ∀ sent written, task.stage = .answered sent (.ok written) →
    ∀ w ∈ written, OwnWritten issues sent w

structure Inv (st : State) : Prop where
  lineages : ∀ id, OwnLineage (st.issues id) (st.lineages id)
  tasks : ∀ task ∈ st.tasks, TaskInv st.issues task
  replaced : st.replaced = []

section Steps

variable {issues issues' : Nat → List Change} {st st' : State}

variable {work : Work} {sent : Option Int} {task : Task} {stage : Stage} {answer : Answer}
  {id index : Nat} {edit : Edit} {effects : List Effect}

theorem Carries.grows (h : Carries issues work sent) (hgrows : Grows issues issues') :
    Carries issues' work sent := by
  cases work with
  | write ids => exact h
  | edit id edit =>
    apply h.imp_right
    rintro ⟨base, version, hbase, hsent, hown⟩
    exact ⟨base, version, hbase, hsent, hown.imp_right fun h => ⟨h.1, h.2.grows (hgrows id)⟩⟩

theorem TaskInv.grows (h : TaskInv issues task) (hgrows : Grows issues issues') :
    TaskInv issues' task :=
  ⟨fun sent hsent => (h.carries sent hsent).grows hgrows,
    fun sent written hstage w hw => (h.answers sent written hstage w hw).grows hgrows⟩

theorem taskInv_idle (hstage : stage = .queued ∨ stage = .settled) :
    TaskInv issues ⟨work, stage⟩ := by
  rcases hstage with rfl | rfl
  · exact ⟨nofun, nofun⟩
  · exact ⟨nofun, nofun⟩

theorem taskInv_sent (h : Carries issues work sent) : TaskInv issues ⟨work, .sent sent⟩ := by
  refine ⟨fun other hother => ?_, nofun⟩
  obtain rfl := some.inj hother
  exact h

theorem taskInv_answered (h : Carries issues work sent)
    (hanswer : ∀ written, answer = .ok written → ∀ w ∈ written, OwnWritten issues sent w) :
    TaskInv issues ⟨work, .answered sent answer⟩ := by
  refine ⟨fun other hother => ?_, fun other written hstage => ?_⟩
  · obtain rfl := some.inj hother
    exact h
  · obtain ⟨rfl, hok⟩ := Stage.answered.inj hstage
    exact hanswer written hok

theorem mem_modify {α : Type} {items : List α} {f : α → α} {item : α}
    (h : item ∈ items.modify index f) :
    item ∈ items ∨ ∃ old, items[index]? = some old ∧ item = f old := by
  obtain ⟨i, hi, rfl⟩ := mem_iff_getElem.mp h
  rw [length_modify] at hi
  rw [getElem_modify]
  split
  · rename_i hindex
    refine .inr ⟨items[i], ?_, rfl⟩
    rw [hindex]
    exact getElem?_eq_getElem hi
  · exact .inl (getElem_mem hi)

theorem Inv.setStage (h : Inv st) (htask : st.tasks[index]? = some task)
    (hstage : TaskInv st.issues ⟨task.work, stage⟩) : Inv (st.setStage index stage) := by
  refine ⟨h.lineages, fun other hother => ?_, h.replaced⟩
  rcases mem_modify hother with hother | ⟨old, hold, rfl⟩
  · exact h.tasks other hother
  · obtain rfl := some.inj (htask.symm.trans hold)
    exact hstage

theorem Inv.setLineage (h : Inv st) {lineage : Option Lineage}
    (hlineage : OwnLineage (st.issues id) lineage) :
    Inv { st with lineages := update st.lineages id lineage } := by
  refine ⟨fun other => ?_, h.tasks, h.replaced⟩
  by_cases hid : other = id
  · subst hid
    simpa using hlineage
  · simpa [hid] using h.lineages other

theorem Inv.record (h : Inv st) {result : Result} (hspan : OwnSpan st.issues result sent) :
    Inv (st.record sent result) := by
  apply h.setLineage
  cases sent with
  | none => exact ownLineage_recordUnversioned (h.lineages _) hspan
  | some sent => exact ownLineage_recordSent (h.lineages _) hspan

theorem Inv.recordWritten (h : Inv st) {written : Written}
    (hwritten : OwnWritten st.issues sent written) :
    Inv (st.recordWritten sent written) ∧ (st.recordWritten sent written).issues = st.issues := by
  obtain ⟨haffected, hspan⟩ := hwritten
  have hothers : Inv (written.affected.foldl (fun st result => st.record none result) st) ∧
      (written.affected.foldl (fun st result => st.record none result) st).issues = st.issues := by
    apply foldlRecOn _ _ (motive := fun next => Inv next ∧ next.issues = st.issues) ⟨h, rfl⟩
    intro next hnext result hresult
    have hown : OwnSpan next.issues result none := by
      rw [hnext.2]
      exact haffected result hresult
    exact ⟨hnext.1.record hown, hnext.2⟩
  refine ⟨hothers.1.record ?_, hothers.2⟩
  rw [hothers.2]
  exact hspan

theorem Inv.recordConflict (h : Inv st) (current : Option Int) (id : Nat) :
    Inv (st.recordConflict current id) :=
  { h.setLineage (ownLineage_none _) with }

theorem Inv.settle (h : Inv st) (htask : st.tasks[index]? = some task)
    (hanswer : task.answer = some (sent, answer)) : Inv (st.settle index task sent answer) := by
  have hstage : task.stage = .answered sent answer := by
    unfold Task.answer at hanswer
    split at hanswer
    · rename_i hstage
      cases hanswer
      exact hstage
    · cases hanswer
  have hsettled : Inv (st.setStage index .settled) := h.setStage htask (taskInv_idle (.inr rfl))
  cases answer with
  | failed => exact hsettled
  | conflict current =>
    exact foldlRecOn _ _ hsettled fun _ hnext id _ => hnext.recordConflict current id
  | ok written =>
    have hown : ∀ w ∈ written, OwnWritten st.issues sent w :=
      (h.tasks task (mem_of_getElem? htask)).answers sent written hstage
    refine (foldlRecOn _ _ (motive := fun next => Inv next ∧ next.issues = st.issues)
      ⟨hsettled, rfl⟩ ?_).1
    intro next hnext w hw
    obtain ⟨hinv, hissues⟩ := hnext.1.recordWritten (hnext.2.symm ▸ hown w hw)
    exact ⟨hinv, hissues.trans hnext.2⟩

/-- **The version that is sent** is the one that the edit is based on, or lies over own
versions. -/
theorem carries_versionToSend {lineage : Option Lineage} (h : OwnLineage (issues id) lineage)
    (edit : Edit) : Carries issues (.edit id edit) (versionToSend lineage edit.expected) := by
  cases hexpected : edit.expected with
  | none => exact .inl ⟨hexpected, rfl⟩
  | some base =>
    refine .inr ?_
    unfold versionToSend
    cases lineage with
    | none => exact ⟨base, base, hexpected, rfl, .inl rfl⟩
    | some run =>
      dsimp only
      split
      · rename_i hin
        exact ⟨base, run.last, hexpected, rfl, .inr ⟨hin.2, (h run rfl).later hin.1⟩⟩
      · exact ⟨base, base, hexpected, rfl, .inl rfl⟩

theorem Inv.run (h : Inv st) (htask : st.tasks[index]? = some task) :
    Inv (st.run index task.work) := by
  unfold State.run
  split
  · rename_i ids hwork
    refine h.setStage htask (taskInv_sent ?_)
    rw [hwork]
    exact rfl
  · rename_i id edit hwork
    have hstopped : Inv (st.stopWaiting id index) := { h with }
    apply hstopped.setStage htask
    split
    · exact taskInv_idle (.inr rfl)
    · apply taskInv_sent
      rw [hwork]
      exact carries_versionToSend (h.lineages id) edit

/-- An accepted edit replaces no change of another client after its base: such a change would be
after the version that was sent. -/
theorem replacedBy_eq_nil (hcarries : Carries issues (.edit id edit) sent)
    (haccepts : accepts (issues id) edit.fields sent) :
    replacedBy (issues id) edit = [] := by
  rcases hcarries with ⟨hexpected, _⟩ | ⟨base, version, hexpected, rfl, hown⟩
  · rw [replacedBy, hexpected]
  · rw [replacedBy, hexpected]
    refine flatMap_eq_nil_iff.mpr fun change hchange => filter_eq_nil_iff.mpr ?_
    intro field hfield hnamed
    obtain ⟨hafter, hforeign⟩ := mem_filter.mp hchange
    obtain ⟨j, hj, rfl⟩ := mem_drop_iff_getElem.mp hafter
    rw [decide_eq_true_eq] at hnamed
    by_cases hsent : version ≤ (base.toNat + j : Nat)
    · -- after the version that was sent: then the edit would not be accepted
      have hlater : (issues id)[base.toNat + j] ∈ after (issues id) version := by
        refine mem_drop_iff_getElem.mpr ⟨base.toNat + j - version.toNat, by omega, ?_⟩
        congr 1
        omega
      have hall := all_eq_true.mp (all_eq_true.mp haccepts _ hlater) field hfield
      exact of_decide_eq_true hall hnamed
    · -- between the two versions: then it is own
      rcases hown with rfl | ⟨_, hrun⟩
      · omega
      · obtain ⟨other, hother, hown⟩ := hrun (base.toNat + j) (by omega) (by omega)
        have hlt : base.toNat + j < (issues id).length := by omega
        rw [getElem?_eq_getElem hlt] at hother
        obtain rfl := some.inj hother
        rw [hown] at hforeign
        cases hforeign

theorem Inv.issues_grow (h : Inv st) {issues : Nat → List Change}
    (hgrows : Grows st.issues issues) : Inv { st with issues } :=
  ⟨fun id run hrun => (h.lineages id run hrun).grows (hgrows id),
    fun task htask => (h.tasks task htask).grows hgrows, h.replaced⟩

theorem Inv.apply (h : Inv st) (htask : st.tasks[index]? = some task)
    (hcarries : Carries st.issues task.work sent) (hown : ∀ w ∈ (serveAll st.issues effects).2,
      OwnWritten (serveAll st.issues effects).1 sent w) : Inv (st.apply index sent effects) := by
  have hgrows := serveAll_grows st.issues effects
  refine (h.issues_grow hgrows).setStage htask (taskInv_answered (hcarries.grows hgrows) ?_)
  rintro _ ⟨⟩
  exact hown

theorem stage_of_request (h : task.request = some sent) :
    task.stage = .sent sent ∧ task.pending = some sent := by
  unfold Task.request at h
  split at h
  · rename_i hstage
    obtain rfl := some.inj h
    exact ⟨hstage, by rw [Task.pending, hstage]⟩
  · cases h

theorem Work.allows_edit {input : Edit} (h : (Work.edit id input).allows effects) :
    ∃ effect, effects = [effect] ∧ effect.issue = id := by
  rw [Work.allows, Bool.and_eq_true, decide_eq_true_eq] at h
  obtain ⟨effect, rfl⟩ := length_eq_one_iff.mp h.2
  have heffect := all_eq_true.mp h.1 effect mem_cons_self
  rw [Bool.and_eq_true, decide_eq_true_eq] at heffect
  exact ⟨effect, rfl, heffect.1⟩

theorem Inv.serve (h : Inv st) (htask : st.tasks[index]? = some task)
    (hrequest : task.request = some sent) (hallows : task.work.allows effects)
    (hothers : effects.all Effect.raisesOthers)
    (hsound : soundRequest st effects task.work sent) :
    Inv (st.serve index task.work sent effects) := by
  have hcarries := (h.tasks task (mem_of_getElem? htask)).carries sent
    (stage_of_request hrequest).2
  have hunversioned : sent = none →
      ∀ w ∈ (serveAll st.issues effects).2, OwnWritten (serveAll st.issues effects).1 sent w := by
    rintro rfl
    exact ownWritten_serveAll hsound hothers
  unfold State.serve
  split
  · rename_i ids hwork
    rw [hwork] at hcarries
    have hnone : sent = none := hcarries
    refine h.apply htask ?_ (hunversioned hnone)
    rw [hwork]
    exact hnone
  · rename_i id edit hwork
    rw [hwork] at hcarries hallows hsound
    split
    · rename_i haccepts
      have hown : ∀ w ∈ (serveAll st.issues effects).2,
          OwnWritten (serveAll st.issues effects).1 sent w := by
        cases sent with
        | none => exact hunversioned rfl
        | some version =>
          obtain ⟨effect, rfl, hissue⟩ := Work.allows_edit hallows
          rw [soundRequest, haccepts, Bool.not_true] at hsound
          rw [all_cons, Bool.and_eq_true] at hothers
          exact ownWritten_serve hissue hothers.1 hsound
      have happlied : Inv (st.apply index sent effects) :=
        h.apply htask (by rw [hwork]; exact hcarries) hown
      refine ⟨happlied.lineages, happlied.tasks, ?_⟩
      rw [h.replaced, replacedBy_eq_nil hcarries haccepts]
      rfl
    · refine h.setStage htask (taskInv_answered ?_ nofun)
      rw [hwork]
      exact hcarries

theorem Inv.enqueue (h : Inv st) (work : Work) : Inv (st.enqueue work) := by
  refine ⟨h.lineages, fun task htask => ?_, h.replaced⟩
  rcases mem_append.mp htask with htask | htask
  · exact h.tasks task htask
  · rw [mem_singleton.mp htask]
    exact taskInv_idle (.inl rfl)

/-- An edit that takes another in is based on the same version. -/
theorem TaskInv.takeIn {next : Task} (h : TaskInv issues task)
    (hnext : task.takeIn edit = some next) : TaskInv issues next := by
  unfold Task.takeIn at hnext
  split at hnext
  · rename_i id waiting hwork
    split at hnext
    · obtain rfl := some.inj hnext
      refine ⟨fun sent hsent => ?_, h.answers⟩
      have hcarries := h.carries sent hsent
      rw [hwork] at hcarries
      exact hcarries
    · cases hnext
  · cases hnext

theorem Inv.queueIssueUpdate (h : Inv st) (id : Nat) (edit : Edit) :
    Inv (st.queueIssueUpdate id edit) := by
  unfold State.queueIssueUpdate
  split
  · rename_i index task hmerged
    obtain ⟨waiting, _, hmerged⟩ := bind_eq_some_iff.mp hmerged
    obtain ⟨old, hold, hmerged⟩ := bind_eq_some_iff.mp hmerged
    obtain ⟨next, hnext, heq⟩ := map_eq_some_iff.mp hmerged
    cases heq
    refine ⟨h.lineages, fun other hother => ?_, h.replaced⟩
    rcases mem_or_eq_of_mem_set hother with hother | rfl
    · exact h.tasks other hother
    · exact (h.tasks old (mem_of_getElem? hold)).takeIn hnext
  · have hqueued := h.enqueue (.edit id edit)
    exact { hqueued with }

theorem Inv.step {l : Label} (h : Inv st) (hok : Sound st l)
    (hstep : step st l = some st') : Inv st' := by
  cases l with
  | queueIssueUpdate id edit =>
    cases hstep
    exact h.queueIssueUpdate id edit
  | queueIssuesWrite ids =>
    cases hstep
    have hqueued := h.enqueue (.write ids.dedup)
    exact { hqueued with }
  | run index =>
    obtain ⟨task, htask, hrun⟩ := bind_eq_some_iff.mp hstep
    obtain ⟨_, ⟨⟩⟩ := ite_none_right_eq_some.mp hrun
    exact h.run htask
  | serve index effects =>
    obtain ⟨task, htask, hserve⟩ := bind_eq_some_iff.mp hstep
    obtain ⟨sent, hrequest, hserve⟩ := bind_eq_some_iff.mp hserve
    obtain ⟨⟨hallows, hothers⟩, ⟨⟩⟩ := ite_none_right_eq_some.mp hserve
    rw [Sound, htask, bind_some, hrequest] at hok
    exact h.serve htask hrequest hallows hothers hok
  | refuse index current =>
    obtain ⟨task, htask, hrefuse⟩ := bind_eq_some_iff.mp hstep
    obtain ⟨sent, hrequest, rfl⟩ := map_eq_some_iff.mp hrefuse
    have hcarries := (h.tasks task (mem_of_getElem? htask)).carries sent
      (stage_of_request hrequest).2
    exact h.setStage htask (taskInv_answered hcarries nofun)
  | fail index =>
    obtain ⟨task, htask, hfail⟩ := bind_eq_some_iff.mp hstep
    obtain ⟨sent, hpending, rfl⟩ := map_eq_some_iff.mp hfail
    have hcarries := (h.tasks task (mem_of_getElem? htask)).carries sent hpending
    exact h.setStage htask (taskInv_answered hcarries nofun)
  | settle index =>
    obtain ⟨task, htask, hsettle⟩ := bind_eq_some_iff.mp hstep
    obtain ⟨answer, hanswer, rfl⟩ := map_eq_some_iff.mp hsettle
    exact h.settle htask hanswer
  | cleanup index =>
    obtain ⟨task, htask, hcleanup⟩ := bind_eq_some_iff.mp hstep
    obtain ⟨_, ⟨⟩⟩ := ite_none_right_eq_some.mp hcleanup
    exact { h with }
  | foreign id fields =>
    obtain ⟨_, ⟨⟩⟩ := ite_none_right_eq_some.mp hstep
    exact h.issues_grow (update_grows _ _ _ _)

end Steps

theorem Inv.start (issues : Nat → List (List Nat)) : Inv (State.start issues) :=
  ⟨fun _ => ownLineage_none _, nofun, rfl⟩

theorem Inv.promise {st : State} (h : Inv st) : Promise st := by
  refine ⟨fun task htask id edit base sent hwork hexpected hstage hne => ?_, h.replaced⟩
  have hcarries := (h.tasks task htask).carries (some sent) (by rw [Task.pending, hstage])
  rw [hwork] at hcarries
  rcases hcarries with ⟨hnone, _⟩ | ⟨other, version, hother, hversion, hown⟩
  · rw [hexpected] at hnone
    cases hnone
  · obtain rfl := some.inj (hexpected.symm.trans hother)
    obtain rfl := some.inj hversion
    exact hown.resolve_left hne

/-- **The queue keeps its promise** in every run in which the server accepts an edit with a
version only when all later changes are the client's own, and a write without a version changes
its issues or finds an own version. -/
theorem queue_of_reaches (issues : Nat → List (List Nat)) {st : State}
    (hrun : Reaches step (fun st l => Sound st l) (State.start issues) st) : Promise st :=
  (hrun.invariant (P := Inv) (fun _ _ _ h hok hstep => h.step hok hstep)
    (Inv.start issues)).promise

def editField (base : Int) (field : Nat) : Edit := ⟨0, some base, [field], true⟩

def changing (fields : List Nat) : List Effect := [⟨0, fields, true, []⟩]

def oneVersion : Nat → List (List Nat) := fun _ => [[0]]

/-- Two quick edits: the second is sent with the version that the first produced. -/
theorem queue_two_edits :
    ∃ st, Promise st ∧ (st.tasks[1]?).map Task.stage = some (.sent (some 2)) := by
  obtain ⟨st, hreach, hsent⟩ :
      ∃ st, Reaches step (fun st l => Sound st l) (State.start oneVersion) st ∧
      (st.tasks[1]?).map Task.stage = some (.sent (some 2)) :=
    Run.exists_reaches [.queueIssueUpdate 0 (editField 1 0), .run 0,
      .queueIssueUpdate 0 (editField 1 1), .serve 0 (changing [0]), .settle 0, .run 1]
      (State.start oneVersion) (by decide)
  exact ⟨st, queue_of_reaches oneVersion hreach, hsent⟩

/-- Another client changes field 1 after version 1. An edit of field 0 based on version 1 is
accepted over it, or a write without a version that changes nothing answers the other client's
version. The lineage takes that version in, and an edit of field 1 based on version 1 replaces
the other client's change. -/
theorem queue_replaces :
    (∃ st, Reaches step Run.Unrestricted (State.start oneVersion) st ∧
      st.tasks.map Task.work = [.edit 0 (editField 1 0), .edit 0 (editField 1 1)] ∧
      st.replaced = [1] ∧ ¬ Promise st) ∧
    ∃ st, Reaches step Run.Unrestricted (State.start oneVersion) st ∧
      st.tasks.map Task.work = [.write [0], .edit 0 (editField 1 1)] ∧
      st.replaced = [1] ∧ ¬ Promise st := by
  have hbroken : ∀ {st : State}, st.replaced = [1] → ¬ Promise st := fun hreplaced hpromise =>
    absurd (hreplaced.symm.trans hpromise.replaced) nofun
  constructor
  all_goals simp only [← and_assoc (b := _ = [1])]
  · exact Run.exists_reaches_and [.queueIssueUpdate 0 (editField 1 0), .run 0, .foreign 0 [1],
      .serve 0 (changing [0]), .settle 0, .queueIssueUpdate 0 (editField 1 1), .run 1,
      .serve 1 (changing [1])] (State.start oneVersion) (by decide) fun st _ h => hbroken h.2
  · exact Run.exists_reaches_and [.foreign 0 [1], .queueIssuesWrite [0], .run 0,
      .serve 0 (changing []), .settle 0, .queueIssueUpdate 0 (editField 1 1), .run 1,
      .serve 1 (changing [1])] (State.start oneVersion) (by decide) fun st _ h => hbroken h.2

end Flow.Ports.IssueMutationQueue
