import Flow.Ports.BusinessClock
import Flow.Verified.Run
import Mathlib.Data.List.Nodup
import Mathlib.Logic.Function.Basic

/-!
# The service agreements of an issue

A workspace lists rules, and the first enabled rule that an issue matches
decides its agreement.  `applySLARules` is run after every change: it starts,
pauses, resumes, completes, breaches and removes the agreements of one issue,
one for each rule at most.
-/

namespace Flow.Ports.Sla

open List Option Flow.Verified.Run Function

structure Label where
  id : String
  name : String
deriving DecidableEq, Repr

structure Issue where
  team : String
  priority : Int
  stateID : String
  stateType : String
  labels : List Label
  project : Option String
deriving DecidableEq, Repr

/-- `domain.SLARule`; the values of its filters are as `fmt.Sprint` prints them. -/
structure SLARule where
  id : String
  teamIDs : List String
  filters : List (String × String)
  removes : Bool
  targetMinutes : Int
  pauseStatuses : List String
  businessHours : Bool
  enabled : Bool
deriving DecidableEq, Repr

inductive Status where
  | active
  | paused
  | breached
  | completed
  | removed
deriving DecidableEq, Repr

/-- `domain.IssueSLA`, under the rule that it is for. -/
structure IssueSLA where
  startedAt : Int
  dueAt : Int
  pausedAt : Option Int
  pausedMinutes : Int
  breachedAt : Option Int
  completedAt : Option Int
  remainingMinutes : Int
  status : Status
deriving DecidableEq, Repr

structure Settings where
  enabled : Bool
  workWeek : WorkWeek
  /-- `slaTimezone`: the fixed offset of a team's zone. -/
  offset : String → Int

/-- How `strings.EqualFold` folds a character. -/
class CaseFolding where
  fold : Char → Char

def equalFold [CaseFolding] (a b : String) : Bool := a.map CaseFolding.fold = b.map CaseFolding.fold

section Matching

variable [CaseFolding]

/-- `slaMatches` on one filter. -/
def filterMatches (issue : Issue) : String × String → Bool
  | ("priority", value) => toString issue.priority = value
  | ("status", value) => issue.stateID = value || issue.stateType = value
  | ("label", value) =>
    issue.labels.any fun label => label.id = value || equalFold label.name value
  | ("project", value) => issue.project = some value
  | _ => true

def slaMatches (rule : SLARule) (issue : Issue) : Bool :=
  rule.enabled && (rule.teamIDs.isEmpty || rule.teamIDs.contains issue.team) &&
    rule.filters.all (filterMatches issue)

def slaWinner (rules : List SLARule) (issue : Issue) : Option SLARule :=
  rules.find? (slaMatches · issue)

end Matching

def pauses (rule : SLARule) (issue : Issue) : Bool :=
  rule.pauseStatuses.contains issue.stateID || rule.pauseStatuses.contains issue.stateType

def Issue.closed (issue : Issue) : Bool :=
  issue.stateType = "completed" || issue.stateType = "canceled"

variable (settings : Settings) (issue : Issue) (rule : SLARule) (now : Int)

def slaDeadline (minutes : Int) : Int :=
  if rule.businessHours then
    businessDeadline now minutes (settings.offset issue.team) settings.workWeek
  else now + duration minutes

def newIssueSLA : IssueSLA where
  startedAt := now
  dueAt := slaDeadline settings issue rule now rule.targetMinutes
  pausedAt := if pauses rule issue then some now else none
  pausedMinutes := 0
  breachedAt := none
  completedAt := none
  remainingMinutes := rule.targetMinutes
  status := if pauses rule issue then .paused else .active

def businessLeft (sla : IssueSLA) : Int :=
  businessMinutes now sla.dueAt (settings.offset issue.team) settings.workWeek

/-- `applySLARules` when the issue enters a status that pauses the rule. -/
def pause (sla : IssueSLA) : IssueSLA :=
  if pauses rule issue && sla.pausedAt.isNone then
    { sla with
      remainingMinutes :=
        if rule.businessHours then businessLeft settings issue now sla else sla.remainingMinutes
      pausedAt := some now
      status := .paused }
  else sla

/-- `applySLARules` when the issue leaves such a status. -/
def resume (sla : IssueSLA) : IssueSLA :=
  match sla.pausedAt with
  | some time =>
    if pauses rule issue then sla
    else
      let minutes := max 0 ((now - time).tdiv minute)
      { sla with
        pausedMinutes := sla.pausedMinutes + minutes
        dueAt :=
          if rule.businessHours then slaDeadline settings issue rule now sla.remainingMinutes
          else sla.dueAt + duration minutes
        pausedAt := none
        status := .active }
  | none => sla

/-- `applySLARules` on a clock that runs. -/
def settle (sla : IssueSLA) : IssueSLA :=
  if issue.closed then
    if sla.completedAt.isNone then { sla with completedAt := some now, status := .completed }
    else sla
  else if sla.pausedAt.isNone then
    let sla := { sla with
      remainingMinutes :=
        if rule.businessHours then businessLeft settings issue now sla
        else (sla.dueAt - now).tdiv minute }
    if sla.dueAt < now && sla.breachedAt.isNone then
      { sla with breachedAt := some now, status := .breached }
    else sla
  else sla

/-- `applySLARules` on an agreement that goes on. -/
def advance (sla : IssueSLA) : IssueSLA :=
  settle settings issue rule now <| resume settings issue rule now <|
    pause settings issue rule now sla

/-- The agreement of the rule that decides: a new one where there is none or it
was removed. -/
def currentSLA : Option IssueSLA → IssueSLA
  | some sla =>
    if sla.status = .removed then newIssueSLA settings issue rule now
    else advance settings issue rule now sla
  | none => newIssueSLA settings issue rule now

/-- The turn of `applySLARules` for one rule. -/
def nextSLA (winner : Option SLARule) (old : Option IssueSLA) : Option IssueSLA :=
  if winner.any (·.id = rule.id) && !rule.removes then
    some (currentSLA settings issue rule now old)
  else old.map fun sla =>
    if sla.status = .completed then sla else { sla with status := .removed }

/-- The agreements of an issue, by the ids of their rules. -/
abbrev SLAs := String → Option IssueSLA

def applyRule (winner : Option SLARule) (slas : SLAs) (rule : SLARule) : SLAs :=
  update slas rule.id (nextSLA settings issue rule now winner (slas rule.id))

def applySLARules [CaseFolding] (rules : List SLARule) (slas : SLAs) : SLAs :=
  if settings.enabled then
    rules.foldl (applyRule settings issue now (slaWinner rules issue)) slas
  else slas

/-! ## Runs of changes -/

structure State where
  issue : Issue
  rules : List SLARule
  slas : SLAs

inductive Change where
  | issue (next : Issue)
  /-- `createSLARule`, `updateSLARule` and `reorderSLARules`. -/
  | rules (next : List SLARule)
  /-- `deleteSLARule`. -/
  | delete (id : String)

def State.change (s : State) : Change → State
  | .issue next => { s with issue := next }
  | .rules next => { s with rules := next }
  | .delete id =>
    { s with rules := s.rules.filter (·.id ≠ id), slas := update s.slas id none }

/-- Rules have ids of their own, and only deleting one takes it away. -/
def Allowed (s : State) : Change × Int → Prop
  | (.rules next, _) => (next.map SLARule.id).Nodup ∧ s.rules.map SLARule.id ⊆ next.map SLARule.id
  | _ => True

def State.evaluate [CaseFolding] (s : State) (now : Int) : State :=
  { s with slas := applySLARules settings s.issue now s.rules s.slas }

/-- A change at some time, with the evaluation that follows it. -/
def step [CaseFolding] (s : State) (a : Change × Int) : Option State :=
  some ((s.change a.1).evaluate settings a.2)

def Status.live : Status → Bool
  | .active | .paused | .breached => true
  | .completed | .removed => false

def State.Live (s : State) (id : String) : Prop :=
  ∃ sla, s.slas id = some sla ∧ sla.status.live = true

/-- The agreement is there, and the evaluation of a closed issue completes it or
leaves it completed. -/
def Completable (issue : Issue) (rule : SLARule) (old : Option IssueSLA) : Prop :=
  ∃ sla, old = some sla ∧ sla.status ≠ .removed ∧
    (sla.completedAt = none ∨ sla.status = .completed ∧ sla.pausedAt.isSome = pauses rule issue)

/-- The agreement that the issue should have can be completed. -/
def State.Settled [CaseFolding] (s : State) : Prop :=
  ∀ rule, slaWinner s.rules s.issue = some rule → rule.removes = false →
    Completable s.issue rule (s.slas rule.id)

/-- Rules have ids of their own, and agreements are for rules that exist. -/
structure State.Valid (s : State) : Prop where
  nodup : (s.rules.map SLARule.id).Nodup
  known : ∀ id ∉ s.rules.map SLARule.id, s.slas id = none

variable {settings issue rule now} {rules : List SLARule} {slas : SLAs} {winner : Option SLARule}
  {id : String} {sla : IssueSLA} {s : State} {a : Change × Int}

theorem foldl_applyRule (settings : Settings) (issue : Issue) (now : Int)
    (winner : Option SLARule) (hnodup : (rules.map SLARule.id).Nodup) (slas : SLAs) :
    (∀ rule ∈ rules, rules.foldl (applyRule settings issue now winner) slas rule.id =
      nextSLA settings issue rule now winner (slas rule.id)) ∧
    ∀ id ∉ rules.map SLARule.id,
      rules.foldl (applyRule settings issue now winner) slas id = slas id := by
  induction rules generalizing slas with
  | nil => simp
  | cons head rest ih =>
    obtain ⟨hhead, hrest⟩ := nodup_cons.mp hnodup
    obtain ⟨hin, hout⟩ := ih hrest (applyRule settings issue now winner slas head)
    refine ⟨fun rule hrule => ?_, fun id hid => ?_⟩
    · rw [foldl_cons]
      rcases mem_cons.mp hrule with rfl | hrule
      · rw [hout _ hhead, applyRule, update_self]
      · have hne : rule.id ≠ head.id := fun h => hhead (h ▸ mem_map_of_mem hrule)
        rw [hin rule hrule, applyRule, update_of_ne hne]
    · rw [map_cons, mem_cons, not_or] at hid
      rw [foldl_cons, hout id hid.2, applyRule, update_of_ne hid.1]

theorem State.Valid.change (h : s.Valid) (ha : Allowed s a) : (s.change a.1).Valid := by
  obtain ⟨change, time⟩ := a
  cases change with
  | issue next => exact ⟨h.nodup, h.known⟩
  | rules next => exact ⟨ha.1, fun id hid => h.known id fun hmem => hid (ha.2 hmem)⟩
  | delete id =>
    refine ⟨h.nodup.sublist (filter_sublist.map _), fun other hother => ?_⟩
    by_cases hid : other = id
    · subst hid
      exact update_self other none s.slas
    · refine (update_of_ne hid _ _).trans (h.known other fun hmem => hother ?_)
      obtain ⟨rule, hrule, rfl⟩ := mem_map.mp hmem
      exact mem_map_of_mem (mem_filter.mpr ⟨hrule, by simpa using hid⟩)

section Evaluate

variable [CaseFolding] (hon : settings.enabled = true)
include hon

/-- An evaluation gives each rule its turn, and there are no other agreements. -/
theorem State.Valid.slas_evaluate (h : s.Valid) (now : Int) :
    (∀ rule ∈ s.rules, (s.evaluate settings now).slas rule.id =
      nextSLA settings s.issue rule now (slaWinner s.rules s.issue) (s.slas rule.id)) ∧
    ∀ id ∉ s.rules.map SLARule.id, (s.evaluate settings now).slas id = none := by
  obtain ⟨hin, hout⟩ :=
    foldl_applyRule settings s.issue now (slaWinner s.rules s.issue) h.nodup s.slas
  rw [State.evaluate, applySLARules, if_pos hon]
  exact ⟨hin, fun id hid => (hout id hid).trans (h.known id hid)⟩

/-- Only the first matching rule has a live agreement after an evaluation. -/
theorem live_evaluate_iff (h : s.Valid) (now : Int) (id : String) :
    (s.evaluate settings now).Live id ↔ ∃ rule, slaWinner s.rules s.issue = some rule ∧
      rule.id = id ∧ rule.removes = false ∧
      (currentSLA settings s.issue rule now (s.slas id)).status.live := by
  obtain ⟨hin, hout⟩ := h.slas_evaluate hon now
  constructor
  · rintro ⟨sla, hsla, hlive⟩
    by_cases hid : id ∈ s.rules.map SLARule.id
    · obtain ⟨rule, hrule, rfl⟩ := mem_map.mp hid
      rw [hin rule hrule, nextSLA] at hsla
      split_ifs at hsla with hmatch
      · obtain ⟨hwinner, hadds⟩ := Bool.and_eq_true_iff.mp hmatch
        obtain ⟨first, hfirst, hsame⟩ := (any_eq_true _ _).mp hwinner
        obtain rfl := inj_on_of_nodup_map h.nodup (mem_of_find?_eq_some hfirst) hrule
          (of_decide_eq_true hsame)
        exact ⟨first, hfirst, rfl, by simpa using hadds, some.inj hsla ▸ hlive⟩
      · obtain ⟨old, -, rfl⟩ := map_eq_some_iff.mp hsla
        split_ifs at hlive with hdone
        · rw [hdone] at hlive
          cases hlive
        · cases hlive
    · rw [hout id hid] at hsla
      cases hsla
  · rintro ⟨rule, hwinner, rfl, hadds, hlive⟩
    refine ⟨_, ?_, hlive⟩
    rw [hin rule (mem_of_find?_eq_some hwinner), nextSLA, if_pos (by simp [hwinner, hadds])]

end Evaluate

/-- The agreement of a closed issue is not live if it was there and could still
be completed. -/
theorem currentSLA_of_closed (settings : Settings) (rule : SLARule) (now : Int)
    (hclosed : issue.closed) (old : Option IssueSLA) :
    (currentSLA settings issue rule now old).status.live = false ↔ Completable issue rule old := by
  have hnew : (newIssueSLA settings issue rule now).status.live = true := by
    unfold newIssueSLA
    cases pauses rule issue <;> rfl
  unfold Completable
  cases old with
  | none => simp [currentSLA, hnew]
  | some sla =>
    by_cases hremoved : sla.status = .removed
    · simp [currentSLA, hremoved, hnew]
    · rw [currentSLA]
      obtain ⟨_, _, pausedAt, _, _, completedAt, _, status⟩ := sla
      cases hpauses : pauses rule issue <;> cases pausedAt <;> cases completedAt <;>
        cases status <;>
        simp_all [advance, settle, resume, pause, Status.live]

/-- After every change with its evaluation at most one agreement is live, that of the first
matching rule. A closed issue has none exactly when the agreement of that rule was there and
could be completed. -/
theorem live_iff [CaseFolding] (settings : Settings) (hon : settings.enabled = true)
    (start s t : State)
    (hnodup : (start.rules.map SLARule.id).Nodup) (hstart : ∀ id, start.slas id = none)
    (hrun : Reaches (step settings) Allowed start s) (a : Change × Int) (ha : Allowed s a)
    (hstep : step settings s a = some t) :
    (∀ id id', t.Live id → t.Live id' → id = id') ∧
    (∀ id, t.Live id → ∃ rule, slaWinner t.rules t.issue = some rule ∧ rule.id = id ∧
      rule.removes = false) ∧
    (t.issue.closed = true → ((∀ id, ¬ t.Live id) ↔ (s.change a.1).Settled)) := by
  have hvalid : s.Valid := by
    refine hrun.invariant (fun s a t hs ha hstep => ?_) ⟨hnodup, fun id _ => hstart id⟩
    cases hstep
    exact ⟨(hs.change ha).nodup, ((hs.change ha).slas_evaluate hon a.2).2⟩
  have hlive := live_evaluate_iff hon (hvalid.change ha) a.2
  cases hstep
  refine ⟨fun id id' hid hid' => ?_, fun id hid => ?_, fun hclosed => ?_⟩
  · obtain ⟨rule, hrule, rfl, -⟩ := (hlive id).mp hid
    obtain ⟨rule', hrule', rfl, -⟩ := (hlive id').mp hid'
    rw [some.inj (hrule.symm.trans hrule')]
  · obtain ⟨rule, hrule, heq, hadds, -⟩ := (hlive id).mp hid
    exact ⟨rule, hrule, heq, hadds⟩
  · have hdone := fun rule => currentSLA_of_closed settings rule a.2 hclosed
    constructor
    · intro hnone rule hrule hadds
      refine (hdone rule _).mp (Bool.eq_false_iff.mpr fun hlives => ?_)
      exact hnone rule.id ((hlive _).mpr ⟨rule, hrule, rfl, hadds, hlives⟩)
    · intro hsettled id hid
      obtain ⟨rule, hrule, rfl, hadds, hlives⟩ := (hlive id).mp hid
      exact Bool.eq_false_iff.mp ((hdone rule _).mpr (hsettled rule hrule hadds)) hlives

def utc : Settings := ⟨true, .monFri, fun _ => 0⟩

/-- A rule for every issue, that waits for review. -/
def dayRule : SLARule := ⟨"day", [], [], false, 1440, ["review"], false, true⟩

def issueIn (stateType : String) : Issue := ⟨"ENG", 1, stateType, stateType, [], none⟩

instance : CaseFolding := ⟨Char.toLower⟩

/-- The issue of the rule is started, and completed a minute later. -/
theorem live_iff_completed :
    let s := State.evaluate utc ⟨issueIn "started", [dayRule], fun _ => none⟩ 0
    let t := State.evaluate utc { s with issue := issueIn "completed" } 60000000000
    s.Live "day" ∧ ∀ id, ¬ t.Live id := by
  intro s t
  have hrun : Reaches (step utc) Allowed ⟨issueIn "started", [], fun _ => none⟩ s :=
    (Reaches.refl _).snoc (a := (.rules [dayRule], 0)) ⟨by decide, by simp⟩ rfl
  refine ⟨⟨_, rfl, rfl⟩, ((live_iff utc rfl ⟨issueIn "started", [], fun _ => none⟩ s t (by decide)
    (fun _ => rfl) hrun (.issue (issueIn "completed"), 60000000000) trivial rfl).2.2 rfl).mpr ?_⟩
  intro rule hrule _
  cases hrule
  exact ⟨_, rfl, by decide, .inl rfl⟩

/-- A rule that is made for a closed issue starts an agreement. -/
theorem closed_issue_live :
    ∃ t, step utc ⟨issueIn "completed", [], fun _ => none⟩ (.rules [dayRule], 0) = some t ∧
      t.issue.closed = true ∧ t.Live "day" :=
  ⟨_, rfl, rfl, _, rfl, rfl⟩

end Flow.Ports.Sla
