import Flow.Ports.CodingServingDecisions
import Flow.Verified.Slots

/-!
# A serving session keeps its sandbox

`Sound` is what every undisturbed run keeps.  Its core is `World.serving`:
while no operation is between its sandbox actions and its commit, the sandbox
that the document names is wanted running and its tokens are valid.  What an
operation in flight has read may be old, so what is known about it
(`ObservedSound`, `DecidedSound`) is known only while the session still has
the version that it read.
-/

namespace Flow.Ports.Coding

open Option Flow.Verified Run Table
open Slots (getElem?_set_cases getElem?_push_cases nodup_push)

def wanted (sandboxes : List Sandbox) (id : String) : Option Desired :=
  (lookup Sandbox.id sandboxes id).map Sandbox.desired

variable {record fresh : Sandbox}

section Wanted

variable {sandboxes : List Sandbox} {id x : String}

theorem wanted_of_mem (hnodup : (sandboxes.map Sandbox.id).Nodup)
    (h : record ∈ sandboxes) : wanted sandboxes record.id = some record.desired := by
  unfold wanted
  rw [lookup_of_mem hnodup h]
  rfl

theorem wanted_stopSandbox_self (h : (wanted sandboxes id).isSome) :
    wanted (stopSandbox id sandboxes) id = some .stopped := by
  unfold wanted at h ⊢
  unfold stopSandbox
  rw [lookup_map (by intro row; split <;> rfl)]
  cases hlookup : lookup Sandbox.id sandboxes id with
  | none => simp [hlookup] at h
  | some record => simp [key_of_lookup hlookup]

theorem wanted_stopSandbox_ne (h : x ≠ id) :
    wanted (stopSandbox id sandboxes) x = wanted sandboxes x := by
  unfold wanted stopSandbox
  rw [lookup_map (by intro row; split <;> rfl)]
  cases hlookup : lookup Sandbox.id sandboxes x with
  | none => rfl
  | some record => simp [key_of_lookup hlookup, h]

theorem wanted_reportSandbox (report : Sandbox) :
    wanted (reportSandbox report sandboxes) x = wanted sandboxes x := by
  unfold wanted reportSandbox
  rw [lookup_map (by intro row; split <;> simp_all)]
  cases lookup Sandbox.id sandboxes x with
  | none => rfl
  | some record =>
    simp only [map_some]
    split <;> rfl

theorem map_id_reportSandbox (report : Sandbox) :
    (reportSandbox report sandboxes).map Sandbox.id = sandboxes.map Sandbox.id :=
  map_key_map (by intro record; split <;> simp_all)

theorem wanted_append_ne (h : fresh.id ≠ x) :
    wanted (sandboxes ++ [fresh]) x = wanted sandboxes x := by
  unfold wanted
  rw [lookup_append_singleton_ne h]

theorem wanted_append_self (h : fresh.id ∉ sandboxes.map Sandbox.id) :
    wanted (sandboxes ++ [fresh]) fresh.id = some fresh.desired := by
  unfold wanted
  rw [lookup_append_singleton h]
  rfl

theorem mem_ids_of_wanted {state : Desired} (h : wanted sandboxes x = some state) :
    x ∈ sandboxes.map Sandbox.id := by
  obtain ⟨record, hlookup, -⟩ := map_eq_some_iff.1 h
  exact mem_keys_of_lookup hlookup

end Wanted

def World.Good (w : World) (id : String) : Prop :=
  wanted w.sandboxes id = some .running ∧ id ∉ w.revoked

def World.actedAt (w : World) (k : Nat) : Bool :=
  (w.works[k]?).any Work.acted

variable {work : Work}

section Quiet

variable {w : World} {k : Nat}

theorem actedAt_of_at (h : w.works[k]? = some work) : w.actedAt k = work.acted := by
  simp [World.actedAt, h]

theorem quiet_iff : w.quiet ↔ ∀ j, w.actedAt j = false := by
  unfold World.quiet World.actedAt
  rw [List.all_eq_true]
  constructor
  · intro h j
    cases hwork : w.works[j]? with
    | none => rfl
    | some work => simpa using h work (List.mem_of_getElem? hwork)
  · intro h work hmem
    obtain ⟨j, hj⟩ := List.mem_iff_getElem?.1 hmem
    simpa [hj] using h j

theorem quietBut_iff : w.quietBut k ↔ ∀ j, j ≠ k → w.actedAt j = false := by
  have hended : w.quietBut k = World.quiet { w with works := w.works.set k .ended } := rfl
  rw [hended, quiet_iff]
  refine forall_congr' fun j => ?_
  by_cases hj : j = k
  · subst hj
    unfold World.actedAt
    rw [List.getElem?_set]
    simp only [if_pos, ne_eq, not_true_eq_false, false_implies, iff_true]
    split <;> rfl
  · simp [World.actedAt, List.getElem?_set_ne (Ne.symm hj), hj]

theorem quiet_of_quietBut (h : w.quietBut k) (hk : w.actedAt k = false) : w.quiet := by
  rw [quiet_iff]
  intro j
  by_cases hj : j = k
  · exact hj ▸ hk
  · exact quietBut_iff.1 h j hj

/-- While an operation is between its actions and its commit, nothing else is quiet. -/
theorem not_quietBut {j : Nat} (hacted : w.actedAt j) (hj : j ≠ k) : ¬w.quietBut k := fun h => by
  rw [quietBut_iff.1 h j hj] at hacted
  cases hacted

theorem quietBut_of_quiet (h : w.quiet) (k : Nat) : w.quietBut k :=
  quietBut_iff.2 fun j _ => quiet_iff.1 h j

end Quiet

/-! ## The invariant -/

/-- A runner's token was granted for a sandbox with a name. -/
def Caller.Named : Caller → Prop
  | .service => True
  | .runner grant _ => grant ≠ ""

def Seen (sandboxes observed : List Sandbox) : Prop :=
  ∀ record ∈ observed, (wanted sandboxes record.id).isSome ∧
    (record.desired = .stopped → wanted sandboxes record.id = some .stopped)

/-- What is known of operation `k` once it has read the sandboxes: while its
version is current, the sandboxes it saw wanted running are. -/
structure ObservedSound (w : World) (k : Nat) (caller : Caller) (read : Session)
    (observed : List Sandbox) : Prop where
  named : caller.Named
  follows : Follows Session.version read w.session
  seen : Seen w.sandboxes observed
  good : caller = .service → w.quietBut k → read.version = w.session.version →
    read.phase.usesSandbox → ∀ record ∈ observed, record.desired = .running → w.Good record.id

/-- What is known of operation `k` once it has decided: while its version is current, its
sandbox is good and none of its actions touches it. -/
structure DecidedSound (w : World) (k : Nat) (caller : Caller) (read : Session)
    (observed : List Sandbox) (next : Session) (pending : List Action) (acted : Bool) :
    Prop where
  named : caller.Named
  follows : Follows Session.version read w.session
  seen : Seen w.sandboxes observed
  needs : (read.phase.needsSandbox → read.sandboxID ≠ "") →
    next.phase.needsSandbox → next.sandboxID ≠ ""
  uses : next.phase.usesSandbox → next.sandboxID ≠ "" → read.phase.usesSandbox
  changes : acted ∨ pending ≠ [] → read.phase.usesSandbox →
    next.phase ≠ read.phase ∨ next.sandboxAttempts ≠ read.sandboxAttempts
  revokes : ∀ x, ⟨.revokeTokens, x⟩ ∈ pending → (wanted w.sandboxes x).isSome ∧
    (⟨.stopSandbox, x⟩ ∈ pending ∨ wanted w.sandboxes x = some .stopped)
  serving : w.quietBut k → read.version = w.session.version → next.phase.usesSandbox →
    next.sandboxID ≠ "" → w.Good next.sandboxID ∧ ∀ a ∈ pending, a.sandboxID ≠ next.sandboxID
  current : acted → read.version = w.session.version ∧ w.quietBut k
  acting : acted → ∀ x ∈ w.revoked, wanted w.sandboxes x = some .stopped ∨
    (wanted w.sandboxes x).isSome ∧ ⟨.stopSandbox, x⟩ ∈ pending

def WorkSound (w : World) (k : Nat) : Work → Prop
  | .authenticated grant => grant ≠ ""
  | .began caller read => caller.Named ∧ Follows Session.version read w.session
  | .observed caller read observed => ObservedSound w k caller read observed
  | .decided caller read observed next pending acted =>
    DecidedSound w k caller read observed next pending acted
  | .ended => True

structure Sound (w : World) : Prop where
  nodup : (w.sandboxes.map Sandbox.id).Nodup
  named : "" ∉ w.sandboxes.map Sandbox.id
  needs : w.session.phase.needsSandbox → w.session.sandboxID ≠ ""
  revoked : w.quiet → ∀ x ∈ w.revoked, wanted w.sandboxes x = some .stopped
  serving : w.quiet → w.session.phase.usesSandbox → w.session.sandboxID ≠ "" →
    w.Good w.session.sandboxID
  works : ∀ k work, w.works[k]? = some work → WorkSound w k work

/-! ## Operations that another step passes -/

/-- What a step does to the operations it leaves alone.  That a good sandbox
stays good matters only where the session stays as it is. -/
structure Passes (w w' : World) (k : Nat) : Prop where
  follows : Follows Session.version w.session w'.session
  seen : ∀ x, (wanted w.sandboxes x).isSome → (wanted w'.sandboxes x).isSome
  stopped : ∀ x, wanted w.sandboxes x = some .stopped → wanted w'.sandboxes x = some .stopped
  good : w'.session = w.session → w.session.phase.usesSandbox → w'.quietBut k →
    w.quietBut k ∧ ∀ x, w.Good x → w'.Good x
  acted : w.actedAt k → w'.session = w.session ∧ w'.quietBut k ∧
    ∀ x ∈ w'.revoked, x ∈ w.revoked ∨ wanted w'.sandboxes x = some .stopped

section Passes

variable {w w' : World} {k : Nat} {caller : Caller} {read : Session} {seen : List Sandbox}

theorem Passes.observed (h : Passes w w' k) (hseen : Seen w.sandboxes seen) :
    Seen w'.sandboxes seen := by
  intro record hrecord
  obtain ⟨hsome, hstopped⟩ := hseen record hrecord
  exact ⟨h.seen _ hsome, fun hdesired => h.stopped _ (hstopped hdesired)⟩

/-- A document that is still current after the step was current before it, and
the step left the session as it is. -/
theorem Passes.current (h : Passes w w' k) (hread : Follows Session.version read w.session)
    (hversion : read.version = w'.session.version) :
    read = w.session ∧ w'.session = w.session := by
  have hle := hread.le
  have hle' := h.follows.le
  have hbefore : read = w.session := hread.eq_of_version (by omega)
  exact ⟨hbefore, (h.follows.eq_of_version (by omega)).symm⟩

theorem ObservedSound.pass (hwork : ObservedSound w k caller read seen)
    (h : Passes w w' k) : ObservedSound w' k caller read seen where
  named := hwork.named
  follows := hwork.follows.trans h.follows
  seen := h.observed hwork.seen
  good := by
    intro hcaller hquiet hversion huses record hrecord hdesired
    obtain ⟨rfl, hsession⟩ := h.current hwork.follows hversion
    obtain ⟨hquiet, hgood⟩ := h.good hsession huses hquiet
    exact hgood _ (hwork.good hcaller hquiet rfl huses record hrecord hdesired)

theorem DecidedSound.pass {next : Session} {pending : List Action} {acted : Bool}
    (hwork : DecidedSound w k caller read seen next pending acted)
    (hat : w.works[k]? = some (.decided caller read seen next pending acted))
    (h : Passes w w' k) : DecidedSound w' k caller read seen next pending acted where
  named := hwork.named
  follows := hwork.follows.trans h.follows
  seen := h.observed hwork.seen
  needs := hwork.needs
  uses := hwork.uses
  changes := hwork.changes
  revokes := by
    intro x hx
    obtain ⟨hsome, hstopped⟩ := hwork.revokes x hx
    exact ⟨h.seen x hsome, hstopped.imp_right (h.stopped x)⟩
  serving := by
    intro hquiet hversion huses hne
    obtain ⟨rfl, hsession⟩ := h.current hwork.follows hversion
    obtain ⟨hquiet, hgood⟩ := h.good hsession (hwork.uses huses hne) hquiet
    obtain ⟨hnext, hpending⟩ := hwork.serving hquiet rfl huses hne
    exact ⟨hgood _ hnext, hpending⟩
  current := by
    intro hacted
    obtain ⟨hsession, hquiet, -⟩ := h.acted ((actedAt_of_at hat).trans hacted)
    rw [hsession]
    exact ⟨(hwork.current hacted).1, hquiet⟩
  acting := by
    intro hacted x hx
    obtain ⟨-, -, hrevoked⟩ := h.acted ((actedAt_of_at hat).trans hacted)
    rcases hrevoked x hx with hx | hx
    · exact (hwork.acting hacted x hx).imp (h.stopped x) fun hx => ⟨h.seen x hx.1, hx.2⟩
    · exact .inl hx

theorem WorkSound.pass (hwork : WorkSound w k work)
    (hat : w.works[k]? = some work) (h : Passes w w' k) : WorkSound w' k work := by
  cases work with
  | authenticated grant => exact hwork
  | began caller read => exact ⟨hwork.1, hwork.2.trans h.follows⟩
  | observed caller read observed => exact ObservedSound.pass hwork h
  | decided caller read observed next pending acted => exact DecidedSound.pass hwork hat h
  | ended => trivial

end Passes

/-! ## Steps that leave the session as it is -/

/-- A step that neither writes the session nor stops a sandbox, and leaves the same operations
between their actions and their commit. -/
structure Extends (w w' : World) : Prop where
  session : w'.session = w.session
  acted : ∀ k, w'.actedAt k = w.actedAt k
  stopped : ∀ x, wanted w.sandboxes x = some .stopped → wanted w'.sandboxes x = some .stopped
  running : ∀ x, wanted w.sandboxes x = some .running → wanted w'.sandboxes x = some .running
  revoked : ∀ x ∈ w'.revoked, x ∈ w.revoked ∨ wanted w'.sandboxes x = some .stopped

section Extends

variable {w w' : World} {k : Nat}

theorem Extends.quietBut (h : Extends w w') (hquiet : w'.quietBut k) : w.quietBut k :=
  quietBut_iff.2 fun j hj => (h.acted j).symm.trans (quietBut_iff.1 hquiet j hj)

theorem Extends.quiet (h : Extends w w') (hquiet : w'.quiet) : w.quiet :=
  quiet_iff.2 fun j => (h.acted j).symm.trans (quiet_iff.1 hquiet j)

theorem Extends.good (h : Extends w w') {x : String} (hx : w.Good x) : w'.Good x := by
  have hrunning := h.running x hx.1
  refine ⟨hrunning, fun hrevoked => ?_⟩
  rcases h.revoked x hrevoked with hbefore | hstopped
  · exact hx.2 hbefore
  · rw [hrunning] at hstopped
    cases hstopped

theorem Extends.seen (h : Extends w w') (x : String) (hx : (wanted w.sandboxes x).isSome) :
    (wanted w'.sandboxes x).isSome := by
  obtain ⟨state, hstate⟩ := isSome_iff_exists.1 hx
  cases state with
  | running => simp [h.running x hstate]
  | stopped => simp [h.stopped x hstate]

theorem Extends.passes (h : Extends w w') (hk : w.actedAt k → w.quietBut k) : Passes w w' k where
  follows := by
    rw [h.session]
    exact .refl _ _
  seen := h.seen
  stopped := h.stopped
  good := fun _ _ hquiet => ⟨h.quietBut hquiet, fun _ => h.good⟩
  acted := by
    intro hacted
    refine ⟨h.session, quietBut_iff.2 fun j hj => ?_, h.revoked⟩
    rw [h.acted j]
    exact quietBut_iff.1 (hk hacted) j hj

theorem Sound.quietBut (h : Sound w) (hacted : w.actedAt k) : w.quietBut k := by
  obtain ⟨work, hat, hwork⟩ := (any_eq_true _ _).1 hacted
  have hsound := h.works k work hat
  cases work with
  | decided caller read observed next pending acted => exact (hsound.current hwork).2
  | _ => cases hwork

theorem Sound.extend (h : Sound w) (hext : Extends w w')
    (hnodup : (w'.sandboxes.map Sandbox.id).Nodup) (hnamed : "" ∉ w'.sandboxes.map Sandbox.id)
    (hworks : ∀ k work, w'.works[k]? = some work →
      w.works[k]? = some work ∨ WorkSound w' k work) : Sound w' where
  nodup := hnodup
  named := hnamed
  needs := by
    rw [hext.session]
    exact h.needs
  revoked := by
    intro hquiet x hx
    rcases hext.revoked x hx with hx | hx
    · exact hext.stopped x (h.revoked (hext.quiet hquiet) x hx)
    · exact hx
  serving := by
    rw [hext.session]
    exact fun hquiet huses hne => hext.good (h.serving (hext.quiet hquiet) huses hne)
  works := by
    intro k work hat
    rcases hworks k work hat with hbefore | hsound
    · exact (h.works k work hbefore).pass hbefore (hext.passes h.quietBut)
    · exact hsound

theorem actedAt_set (hk : w.actedAt k = false) (hwork : work.acted = false)
    (j : Nat) : World.actedAt { w with works := w.works.set k work } j = w.actedAt j := by
  unfold World.actedAt at hk ⊢
  by_cases hj : k = j
  · subst hj
    rw [hk]
    simp only [List.getElem?_set, if_pos]
    split
    · simpa using hwork
    · rfl
  · simp [List.getElem?_set_ne hj]

theorem actedAt_append (hwork : work.acted = false) (j : Nat) :
    World.actedAt { w with works := w.works ++ [work] } j = w.actedAt j := by
  unfold World.actedAt
  by_cases hj : j < w.works.length
  · simp [List.getElem?_append_left hj]
  · rw [List.getElem?_append_right (by omega), List.getElem?_eq_none (by omega : _ ≤ j)]
    cases j - w.works.length with
    | zero => simpa using hwork
    | succ n => rfl

theorem Sound.place (h : Sound w) (hk : w.actedAt k = false) (hwork : work.acted = false)
    (hsound : WorkSound { w with works := w.works.set k work } k work) :
    Sound { w with works := w.works.set k work } := by
  refine h.extend ⟨rfl, actedAt_set hk hwork, fun _ => id, fun _ => id, fun _ => .inl⟩
    h.nodup h.named ?_
  intro j other hj
  rcases getElem?_set_cases hj with ⟨rfl, rfl⟩ | ⟨_, hj⟩
  · exact .inr hsound
  · exact .inl hj

theorem Sound.push (h : Sound w) (hwork : work.acted = false)
    (hsound : WorkSound { w with works := w.works ++ [work] } w.works.length work) :
    Sound { w with works := w.works ++ [work] } := by
  refine h.extend ⟨rfl, actedAt_append hwork, fun _ => id, fun _ => id, fun _ => .inl⟩
    h.nodup h.named ?_
  intro j other hj
  rcases getElem?_push_cases hj with ⟨rfl, rfl⟩ | hj
  · exact .inr hsound
  · exact .inl hj

theorem sound_report (h : Sound w) (report : Sandbox) :
    Sound { w with sandboxes := reportSandbox report w.sandboxes } := by
  refine h.extend ⟨rfl, fun _ => rfl, ?_, ?_, fun _ => .inl⟩ ?_ ?_ fun _ _ => .inl
  · intro x hx
    rwa [wanted_reportSandbox]
  · intro x hx
    rwa [wanted_reportSandbox]
  · rw [map_id_reportSandbox]
    exact h.nodup
  · rw [map_id_reportSandbox]
    exact h.named

theorem sound_reap (h : Sound w) {id : String}
    (hstopped : w.sandboxes.any fun record => record.id = id ∧ record.desired = .stopped) :
    Sound { w with revoked := id :: w.revoked } := by
  obtain ⟨record, hrecord, hid⟩ := List.any_eq_true.1 hstopped
  obtain ⟨rfl, hdesired⟩ := of_decide_eq_true hid
  refine h.extend ⟨rfl, fun _ => rfl, fun _ => id, fun _ => id, ?_⟩ h.nodup h.named
    fun _ _ => .inl
  intro x hx
  rcases List.mem_cons.1 hx with rfl | hx
  · right
    rw [wanted_of_mem h.nodup hrecord, hdesired]
  · exact .inl hx

theorem sound_provision (h : Sound w) {observed : List Sandbox}
    {given : Option String} {sandboxes : List Sandbox}
    (hne : given ≠ some "") (hprovision : w.provision observed fresh given = some sandboxes) :
    Sound { w with sandboxes := sandboxes } := by
  revert hprovision
  fun_cases World.provision w observed fresh given
  all_goals rintro ⟨⟩
  · exact h
  · exact h
  next hfresh =>
    obtain ⟨rfl, -, -, hnew⟩ := hfresh
    have hsame : ∀ x state, wanted w.sandboxes x = some state →
        wanted (w.sandboxes ++ [fresh]) x = some state := by
      intro x state hx
      rw [wanted_append_ne]
      · exact hx
      · rintro rfl
        exact hnew (mem_ids_of_wanted hx)
    refine h.extend ⟨rfl, fun _ => rfl, fun x => hsame x _, fun x => hsame x _,
      fun _ => .inl⟩ (nodup_push h.nodup hnew) ?_ fun _ _ => .inl
    simp only [List.map_append, List.mem_append, List.map_cons, List.map_nil,
      List.mem_singleton, not_or]
    exact ⟨h.named, fun hempty => hne (by rw [← hempty])⟩

end Extends

section Decide

variable {w : World} {k : Nat} {caller : Caller} {read : Session} {observed : List Sandbox}

@[simp] theorem quietBut_set (w : World) (k : Nat) (work : Work) :
    World.quietBut { w with works := w.works.set k work } k = w.quietBut k := by
  simp [World.quietBut]

theorem reusable_spec (h : reusable observed = some record) :
    record ∈ observed ∧ record.desired = .running := by
  have hkind := List.find?_some h
  exact ⟨List.mem_reverse.1 (List.mem_of_find?_eq_some h), (of_decide_eq_true hkind).2.1⟩

theorem provision_good {sandboxID : String} {sandboxes : List Sandbox}
    (hprovision : w.provision observed fresh (some sandboxID) = some sandboxes)
    (hobserved : ∀ record ∈ observed, record.desired = .running →
      World.Good { w with sandboxes := sandboxes } record.id) :
    World.Good { w with sandboxes := sandboxes } sandboxID := by
  simp only [World.provision] at hprovision
  split at hprovision
  next record hrecord =>
    obtain ⟨hid, ⟨⟩⟩ := ite_none_right_eq_some.1 hprovision
    obtain ⟨hmem, hdesired⟩ := reusable_spec hrecord
    exact hid ▸ hobserved record hmem hdesired
  next =>
    obtain ⟨⟨rfl, hdesired, hrevoked, hnew⟩, ⟨⟩⟩ := ite_none_right_eq_some.1 hprovision
    exact ⟨(wanted_append_self hnew).trans (congrArg some hdesired), hrevoked⟩

theorem decided_sound (h : Sound w) (hwork : ObservedSound w k caller read observed)
    (hk : w.actedAt k = false) {given : Option String} {d : Decision}
    (hassigns : Assigns read observed given d)
    (hgiven : ∀ id, given = some id → w.quietBut k → read.version = w.session.version →
      read.phase.usesSandbox → w.Good id)
    (hadvances : read.phase = .starting → given ≠ some read.sandboxID) (work : Work) :
    DecidedSound { w with works := w.works.set k work } k caller read observed d.session
      (d.actions.filter Action.touches) false := by
  refine ⟨hwork.named, hwork.follows, hwork.seen, hassigns.needs, hassigns.uses, ?_, ?_, ?_,
    fun hacted => (by cases hacted), fun hacted => (by cases hacted)⟩
  · intro hpending huses
    rcases hpending with hacted | hpending
    · cases hacted
    · obtain ⟨a, ha⟩ := List.exists_mem_of_ne_nil _ hpending
      obtain ⟨ha, htouches⟩ := List.mem_filter.1 ha
      exact hassigns.changes a ha htouches huses
  · intro x hx
    obtain ⟨record, hrecord, rfl, hstop⟩ := hassigns.revokes x (List.mem_of_mem_filter hx)
    obtain ⟨hsome, hstopped⟩ := hwork.seen record hrecord
    refine ⟨hsome, hstop.imp (fun hstop => ?_) hstopped⟩
    exact List.mem_filter.2 ⟨hstop, by simp [Action.touches]⟩
  · intro hquiet hversion huses hne
    rw [quietBut_set] at hquiet
    have hreads := hassigns.uses huses hne
    rcases hassigns.serving huses hne with ⟨hid, huntouched⟩ | ⟨hgave, htouched⟩
    · rw [hid] at hne ⊢
      have hread := hwork.follows.eq_of_version hversion
      refine ⟨?_, fun a ha => ?_⟩
      · rw [hread] at hreads hne ⊢
        exact h.serving (quiet_of_quietBut hquiet hk) hreads hne
      · obtain ⟨ha, htouches⟩ := List.mem_filter.1 ha
        exact absurd htouches (huntouched a ha)
    · refine ⟨hgiven _ hgave hquiet hversion hreads, fun a ha hsame => ?_⟩
      obtain ⟨ha, htouches⟩ := List.mem_filter.1 ha
      obtain ⟨hstarting, hcurrent⟩ := htouched a ha htouches
      exact hadvances hstarting (by rw [hgave, ← hsame, hcurrent])

end Decide

section Act

variable {w : World} {k : Nat} {caller : Caller} {read : Session} {observed : List Sandbox}
  {next : Session} {a : Action} {pending : List Action} {acted : Bool} {x : String}

theorem wanted_perform (w : World) (a : Action) (x : String) :
    wanted (w.perform a).sandboxes x = wanted w.sandboxes x ∨
      a = ⟨.stopSandbox, x⟩ ∧ ((wanted w.sandboxes x).isSome →
        wanted (w.perform a).sandboxes x = some .stopped) := by
  obtain ⟨kind, id⟩ := a
  cases kind with
  | stopSandbox =>
    by_cases hx : x = id
    · subst hx
      exact .inr ⟨rfl, wanted_stopSandbox_self⟩
    · exact .inl (wanted_stopSandbox_ne hx)
  | _ => exact .inl rfl

theorem mem_revoked_perform (h : x ∈ (w.perform a).revoked) :
    x ∈ w.revoked ∨ a = ⟨.revokeTokens, x⟩ := by
  obtain ⟨kind, id⟩ := a
  cases kind with
  | revokeTokens =>
    rcases List.mem_cons.1 h with rfl | h
    · exact .inr rfl
    · exact .inl h
  | _ => exact .inl h

@[simp] theorem perform_session (w : World) (a : Action) : (w.perform a).session = w.session := by
  obtain ⟨kind, id⟩ := a
  cases kind <;> rfl

@[simp] theorem map_id_perform (w : World) (a : Action) :
    (w.perform a).sandboxes.map Sandbox.id = w.sandboxes.map Sandbox.id := by
  obtain ⟨kind, id⟩ := a
  cases kind with
  | stopSandbox => exact map_key_map (by intro record; split <;> rfl)
  | _ => rfl

theorem stopped_perform (h : wanted w.sandboxes x = some .stopped) :
    wanted (w.perform a).sandboxes x = some .stopped := by
  rcases wanted_perform w a x with hsame | ⟨-, hstopped⟩
  · rw [hsame, h]
  · exact hstopped (by simp [h])

theorem seen_perform (h : (wanted w.sandboxes x).isSome) :
    (wanted (w.perform a).sandboxes x).isSome := by
  rcases wanted_perform w a x with hsame | ⟨-, hstopped⟩
  · rw [hsame]
    exact h
  · rw [hstopped h]
    rfl

theorem good_perform (h : w.Good x) (hx : a.sandboxID ≠ x) : (w.perform a).Good x := by
  refine ⟨?_, fun hrevoked => ?_⟩
  · rcases wanted_perform w a x with hsame | ⟨rfl, -⟩
    · rw [hsame]
      exact h.1
    · exact absurd rfl hx
  · rcases mem_revoked_perform hrevoked with hrevoked | rfl
    · exact h.2 hrevoked
    · exact absurd rfl hx

/-- What is known of an operation after its next action, which succeeded while
its version was current and no other operation had acted. -/
theorem DecidedSound.act (h : Sound w)
    (hat : w.works[k]? = some (.decided caller read observed next (a :: pending) acted))
    (hquiet : w.quietBut k) (hversion : read.version = w.session.version) (work : Work) :
    DecidedSound { w.perform a with works := w.works.set k work } k caller read
      observed next pending true := by
  have hwork : DecidedSound w k caller read observed next (a :: pending) acted :=
    h.works k _ hat
  have hquiet' : World.quietBut { w.perform a with works := w.works.set k work } k :=
    (quietBut_set w k work).trans hquiet
  -- A stop that was not the action just run is still to run.
  have hleft : ∀ x, wanted w.sandboxes x = some .stopped ∨
      (wanted w.sandboxes x).isSome ∧ ⟨.stopSandbox, x⟩ ∈ a :: pending →
      wanted (w.perform a).sandboxes x = some .stopped ∨
        (wanted (w.perform a).sandboxes x).isSome ∧ ⟨.stopSandbox, x⟩ ∈ pending := by
    intro x hx
    rcases hx with hx | ⟨hsome, hstop⟩
    · exact .inl (stopped_perform hx)
    · rcases List.mem_cons.1 hstop with rfl | hstop
      · exact .inl (wanted_stopSandbox_self hsome)
      · exact .inr ⟨seen_perform hsome, hstop⟩
  refine ⟨hwork.named, ?_, ?_, hwork.needs, hwork.uses, fun _ => hwork.changes (.inr (by simp)),
    ?_, ?_, fun _ => ⟨?_, hquiet'⟩, ?_⟩
  · simpa using hwork.follows
  · intro record hrecord
    obtain ⟨hsome, hstopped⟩ := hwork.seen record hrecord
    exact ⟨seen_perform hsome, fun hdesired => stopped_perform (hstopped hdesired)⟩
  · intro x hx
    obtain ⟨hsome, hstop⟩ := hwork.revokes x (List.mem_cons_of_mem a hx)
    refine ⟨seen_perform hsome, ?_⟩
    rcases hleft x (hstop.symm.imp id fun hstop => ⟨hsome, hstop⟩) with hx | hx
    · exact .inr hx
    · exact .inl hx.2
  · intro _ _ huses hne
    obtain ⟨hgood, hpending⟩ := hwork.serving hquiet hversion huses hne
    exact ⟨good_perform hgood (hpending a List.mem_cons_self),
      fun b hb => hpending b (List.mem_cons_of_mem a hb)⟩
  · simpa using hversion
  · intro _ x hx
    apply hleft
    rcases mem_revoked_perform hx with hx | rfl
    · cases hacted : acted with
      | false =>
        have hk : w.actedAt k = false := (actedAt_of_at hat).trans hacted
        exact .inl (h.revoked (quiet_of_quietBut hquiet hk) x hx)
      | true => exact hwork.acting hacted x hx
    · obtain ⟨hsome, hstop⟩ := hwork.revokes x List.mem_cons_self
      exact hstop.symm.imp id fun hstop => ⟨hsome, hstop⟩

theorem sound_act (h : Sound w)
    (hat : w.works[k]? = some (.decided caller read observed next (a :: pending) acted))
    (hquiet : w.quietBut k) (hversion : read.version = w.session.version) :
    Sound { w.perform a with
      works := w.works.set k (.decided caller read observed next pending true) } := by
  have hwork := DecidedSound.act h hat hquiet hversion
    (.decided caller read observed next pending true)
  obtain ⟨hlt, -⟩ := List.getElem?_eq_some_iff.1 hat
  -- From here on operation `k` has acted, so nothing is quiet.
  have hacted : World.actedAt { w.perform a with
      works := w.works.set k (.decided caller read observed next pending true) } k = true := by
    simp [World.actedAt, hlt, Work.acted]
  have hnever := fun hquiet' =>
    not_quietBut hacted (Nat.ne_of_lt k.lt_succ_self) (quietBut_of_quiet hquiet' (k + 1))
  refine ⟨by simpa using h.nodup, by simpa using h.named, by simpa using h.needs,
    fun hquiet' => (hnever hquiet').elim, fun hquiet' => (hnever hquiet').elim, ?_⟩
  · intro j other hj
    rcases getElem?_set_cases hj with ⟨rfl, rfl⟩ | ⟨hjk, hj⟩
    · exact hwork
    · refine (h.works j other hj).pass hj ⟨?_, fun x => seen_perform, fun x => stopped_perform,
        fun _ _ hquietj => absurd hquietj (not_quietBut hacted (Ne.symm hjk)),
        fun hactedj => absurd hquiet (not_quietBut hactedj hjk)⟩
      simpa using Follows.refl Session.version w.session

end Act

section Write

variable {w : World} {k : Nat}

/-- Operation `k`, or an update when `k` is none, writes the document `t`. -/
theorem Sound.write (h : Sound w) {t : Session} (hquiet : w.quietBut k)
    (hchanges : w.actedAt k → w.session.phase.usesSandbox →
      writeDocument w.session t ≠ w.session) (hneeds : t.phase.needsSandbox → t.sandboxID ≠ "")
    (hserving : t.phase.usesSandbox → t.sandboxID ≠ "" → w.Good t.sandboxID)
    (hrevoked : ∀ x ∈ w.revoked, wanted w.sandboxes x = some .stopped) :
    Sound { w with session := writeDocument w.session t, works := w.works.set k .ended } where
  nodup := h.nodup
  named := h.named
  needs := by simpa using hneeds
  revoked := fun _ => hrevoked
  serving := by
    intro _ huses hne
    simp only [writeDocument_phase, writeDocument_sandboxID] at huses hne ⊢
    exact hserving huses hne
  works := by
    intro j work hj
    rcases getElem?_set_cases hj with ⟨rfl, rfl⟩ | ⟨hjk, hj⟩
    · trivial
    · refine (h.works j work hj).pass hj ⟨writeDocument_follows _ _, fun _ => id, fun _ => id,
        fun hsame huses _ => ⟨?_, fun _ => id⟩,
        fun hactedj => absurd hquiet (not_quietBut hactedj hjk)⟩
      -- A write that changes nothing is not one of an operation that acted.
      refine quietBut_of_quiet (quiet_of_quietBut hquiet ?_) j
      exact Bool.eq_false_iff.2 fun hacted => hchanges hacted huses hsame

theorem Sound.keep (h : Sound w) {t : Session} (hquiet : w.quiet)
    (hkeeps : KeepsSandbox w.session t) (k : Nat) :
    Sound { w with session := writeDocument w.session t, works := w.works.set k .ended } := by
  refine h.write (quietBut_of_quiet hquiet k) ?_ (hkeeps.needs h.needs) ?_ (h.revoked hquiet)
  · intro hacted
    rw [quiet_iff.1 hquiet k] at hacted
    cases hacted
  · intro huses hne
    obtain ⟨hbefore, hid⟩ := hkeeps.serving huses hne
    rw [hid] at hne ⊢
    exact h.serving hquiet hbefore hne

theorem sound_commit (h : Sound w) {caller : Caller} {read : Session}
    {observed : List Sandbox} {next : Session} {acted : Bool}
    (hat : w.works[k]? = some (.decided caller read observed next [] acted))
    (hquiet : w.quietBut k) : Sound (w.commit k caller read observed next) := by
  have hwork : DecidedSound w k caller read observed next [] acted := h.works k _ hat
  have hactedAt : w.actedAt k = acted := actedAt_of_at hat
  by_cases hversion : w.session.version = read.version
  · unfold World.commit
    rw [if_pos hversion]
    have hread : read = w.session := hwork.follows.eq_of_version hversion.symm
    subst hread
    refine h.write hquiet ?_ (hwork.needs h.needs) ?_ ?_
    · intro hacted huses hsame
      rw [hactedAt] at hacted
      have hphase := congrArg Session.phase hsame
      have hattempts := congrArg Session.sandboxAttempts hsame
      simp only [writeDocument_phase, writeDocument_sandboxAttempts] at hphase hattempts
      rcases hwork.changes (.inl hacted) huses with hne | hne
      · exact hne hphase
      · exact hne hattempts
    · exact fun huses hne => (hwork.serving hquiet rfl huses hne).1
    · cases hacted : acted with
      | false => exact h.revoked (quiet_of_quietBut hquiet (hactedAt.trans hacted))
      | true =>
        intro x hx
        rcases hwork.acting hacted x hx with hx | hx
        · exact hx
        · simp at hx
  · unfold World.commit
    rw [if_neg hversion]
    have hk : w.actedAt k = false := by
      rw [hactedAt, Bool.eq_false_iff]
      exact fun hacted => hversion (hwork.current hacted).1.symm
    cases caller with
    | service => exact h.place hk rfl trivial
    | runner grant retried =>
      refine h.place hk rfl ⟨hwork.named, .refl _ _, hwork.seen, ?_⟩
      intro hservice
      cases hservice

end Write

section Step

variable {svc : Service} {w w' : World}

theorem given_ne_empty (svc : Service) (read : Session) (observed : List Sandbox)
    (op : Operation) : op.given svc read observed ≠ some "" := by
  cases op with
  | reconcile obs provisioned published =>
    simp only [Operation.given]
    split
    · rename_i hgiven
      simpa using hgiven.2
    · simp
  | _ => simp [Operation.given]

variable {read : Session} {op : Operation} {caller : Caller}

theorem given_service {observed : List Sandbox} {id : String} (hop : op.decides caller)
    (h : op.given svc read observed = some id) : caller = .service := by
  cases op with
  | reconcile obs provisioned published => exact of_decide_eq_true hop
  | _ => cases h

theorem starting_ne_given {observed : List Sandbox} (h : op.advances svc read observed)
    (hstarting : read.phase = .starting) : op.given svc read observed ≠ some read.sandboxID := by
  cases op with
  | completeTurn => simp [Operation.given]
  | _ => simpa [Operation.advances, hstarting] using h

theorem sound_decide (h : Sound w) {k : Nat} {observed : List Sandbox}
    {d : Decision} {sandboxes : List Sandbox}
    (hat : w.works[k]? = some (.observed caller read observed)) (hop : op.decides caller)
    (hadvances : op.advances svc read observed) (hd : op.run svc observed read = some d)
    (hsandboxes : w.provision observed fresh (op.given svc read observed) = some sandboxes) :
    Sound { w with
      sandboxes := sandboxes
      works := w.works.set k (.decided caller read observed d.session
        (d.actions.filter Action.touches) false) } := by
  have hprovisioned := sound_provision h (given_ne_empty svc read observed op) hsandboxes
  have hwork : ObservedSound { w with sandboxes := sandboxes } k caller read observed :=
    hprovisioned.works k _ hat
  have hk : World.actedAt { w with sandboxes := sandboxes } k = false := actedAt_of_at hat
  apply hprovisioned.place hk rfl
  refine decided_sound hprovisioned hwork hk (run_assigns hop hadvances hd) ?_
    (starting_ne_given hadvances) _
  intro id hgiven hquiet hversion huses
  rw [hgiven] at hsandboxes
  exact provision_good hsandboxes
    (hwork.good (given_service hop hgiven) hquiet hversion huses)

theorem sound_observe (h : Sound w) {k : Nat} (hat : w.works[k]? = some (.began caller read)) :
    Sound { w with works := w.works.set k (.observed caller read w.sandboxes) } := by
  have hk : w.actedAt k = false := actedAt_of_at hat
  obtain ⟨hnamed, hfollows⟩ := h.works k _ hat
  refine h.place hk rfl ⟨hnamed, hfollows, ?_, ?_⟩
  · intro record hrecord
    have hwanted := wanted_of_mem h.nodup hrecord
    exact ⟨by simp [hwanted], fun hdesired => hwanted.trans (congrArg some hdesired)⟩
  · intro _ hquiet _ _ record hrecord hdesired
    rw [quietBut_set] at hquiet
    have hwanted := wanted_of_mem h.nodup hrecord
    refine ⟨hwanted.trans (congrArg some hdesired), fun hrevoked => ?_⟩
    have hstopped := h.revoked (quiet_of_quietBut hquiet hk) _ hrevoked
    rw [hwanted, hdesired] at hstopped
    cases hstopped

/-- **Every undisturbed step keeps a sound world sound.** -/
theorem sound_step (h : Sound w) {label : Label} (hok : Undisturbed svc w label)
    (hstep : w.step svc label = some w') : Sound w' := by
  unfold Undisturbed at hok
  revert hstep
  fun_cases World.step svc w label
  all_goals intro hstep
  all_goals try cases hstep
  next grant hgrant =>
    apply h.push rfl
    rintro rfl
    exact h.named hgrant.1
  next k grant hat => exact h.place (actedAt_of_at hat) rfl ⟨h.works k _ hat, .refl _ _⟩
  next => exact h.push rfl ⟨trivial, .refl _ _⟩
  next k caller read hat => exact sound_observe h hat
  next k op fresh caller read observed hat hop d sandboxes hsandboxes hd _ =>
    simp only [World.undisturbed, hat] at hok
    exact sound_decide h hat hop hok hd hsandboxes
  next k succeeds caller read observed next a pending acted hat _ =>
    simp only [World.undisturbed, hat, Bool.and_eq_true, decide_eq_true_eq] at hok
    obtain ⟨⟨rfl, hquiet⟩, hversion⟩ := hok
    exact sound_act h hat hquiet hversion.symm
  next hat => exact sound_commit h hat hok
  next k op grant read hat hop =>
    obtain ⟨d, hd, rfl⟩ := map_eq_some_iff.1 hstep
    have hnamed : grant ≠ "" := (h.works k _ hat).1
    exact h.keep hok (answers_keepsSandbox hnamed hop hd) k
  next op hop =>
    obtain ⟨d, hd, rfl⟩ := map_eq_some_iff.1 hstep
    have hkeep := h.keep hok (updates_keepsSandbox hop hd) w.works.length
    rwa [List.set_eq_of_length_le (Nat.le_refl _)] at hkeep
  next => exact h.place (by simpa [World.undisturbed, World.actedAt] using hok) rfl trivial
  next record => exact sound_report h record
  next hstopped => exact sound_reap h hstopped

end Step

theorem start_sound (svc : Service) (input : StartInput) (time : Time) :
    Sound (World.start svc input time) := by
  have hid : (svc.start input time).sandboxID = "" := by
    fun_cases Service.start svc input time <;> rfl
  have hphase : ¬(svc.start input time).phase.needsSandbox := by
    fun_cases Service.start svc input time <;> simp +zetaDelta [Phase.needsSandbox]
  exact ⟨by simp [World.start], by simp [World.start], fun hneeds => absurd hneeds hphase,
    by simp [World.start], fun _ _ hne => absurd hid hne, by simp [World.start]⟩

theorem serving_of_sound {w : World} (h : Sound w) (hquiet : w.quiet) : Serving w := by
  intro hphase
  have hneeds : w.session.phase.needsSandbox := by
    rcases hphase with hphase | hphase <;> rw [hphase] <;> rfl
  have hne := h.needs hneeds
  obtain ⟨hwanted, hrevoked⟩ := h.serving hquiet (usesSandbox_of_needs hneeds) hne
  obtain ⟨record, hlookup, hdesired⟩ := map_eq_some_iff.1 hwanted
  refine ⟨record, ?_, hdesired, ?_⟩
  · unfold currentSandbox
    unfold lookup at hlookup
    simpa [hne] using hlookup
  · rw [key_of_lookup hlookup]
    exact hrevoked

/-- **A serving session keeps its sandbox** in every undisturbed run, outside
the windows between the sandbox actions of an operation and its commit. -/
theorem serving_of_reaches (svc : Service) (input : StartInput) (time : Time) (w : World)
    (h : Reaches (World.step svc) (Undisturbed svc) (World.start svc input time) w)
    (hquiet : w.quiet) : Serving w := by
  refine serving_of_sound (h.invariant (P := Sound) ?_ (start_sound svc input time)) hquiet
  intro w label w' hw hok hstep
  exact sound_step hw hok hstep

def firstSandbox : Sandbox := { id := "sb-1", phase := .running }

/-- A pass gives the session the sandbox `sb-1`, whose runner bootstraps with
the first turn and then reports that it runs. -/
def toRunning : List Label :=
  [.begin, .observe 0,
    .decide 0 (.reconcile { now := minute } { sandboxID := "sb-1" } {}) firstSandbox, .commit 0,
    .authenticate "sb-1", .read 1,
    .answer 1 (.bootstrap "sb-1" (some "turn-1") false (2 * minute)),
    .authenticate "sb-1", .read 2, .answer 2 (.heartbeat (3 * minute))]

def firstTurn : Session :=
  let c := defaultConfig
  let s :=
    c.enter { defaultService.start startedInAcme 0 with sandboxID := "sb-1" } .starting minute
  let s := c.enter { s with currentTurnID := "turn-1" } .setup (2 * minute)
  { c.enter s .running (3 * minute) with version := 4 }

/-- The session that was handed its second turn at the end of its idle time. -/
def secondTurn : Session :=
  let request : TurnCompleteRequest := { status := .success }
  let d := defaultService.completeDecision firstTurn [] "turn-1" request (4 * minute)
  { defaultConfig.enter { d.session with currentTurnID := "turn-2" } .running (20 * minute) with
    version := 6 }

theorem serving_first_turn :
    Serving
      { session := firstTurn, sandboxes := [firstSandbox], works := [.ended, .ended, .ended] } :=
  serving_of_reaches defaultService startedInAcme 0 _ (reaches_of_exec toRunning _ _ (by decide))
    (by decide)

theorem not_serving {w : World} (hphase : w.session.phase = .running)
    (hcurrent : currentSandbox w.session w.sandboxes = some record)
    (hdesired : record.desired = .stopped) : ¬Serving w := by
  intro h
  obtain ⟨other, hother, hrunning, -⟩ := h (.inr hphase)
  rw [hcurrent] at hother
  cases hother
  rw [hdesired] at hrunning
  cases hrunning

/-- A pass finds that the runner of the first turn is lost and stops its
sandbox. -/
def stopsLostRunner : List Label :=
  toRunning ++
    [.begin, .observe 3, .decide 3 (.reconcile { now := 10 * minute } {} {}) firstSandbox,
      .act 3 true]

/-- The first turn ends. After the idle time a pass stops the sandbox while its runner is handed
the second turn, and loses the commit. -/
def handsOutWhileEnding : List Label :=
  toRunning ++
    [.authenticate "sb-1", .read 3, .observe 3,
      .decide 3 (.completeTurn "sb-1" "turn-1" false { status := .success } (4 * minute))
        firstSandbox,
      .commit 3, .begin, .observe 4, .authenticate "sb-1", .read 5,
      .decide 4 (.reconcile { now := 20 * minute } {} {}) firstSandbox, .act 4 true, .act 4 true,
      .answer 5 (.inbox "sb-1" "turn-2" (20 * minute)), .commit 4]

/-- **A serving session loses its sandbox**: for a while, between the actions of a pass that
ends it and its commit; and for good when the runner is handed a turn in that window, so that
the commit is lost. -/
theorem sandbox_lost :
    (∃ w, Reaches (World.step defaultService) (Undisturbed defaultService)
        (World.start defaultService startedInAcme 0) w ∧ ¬Serving w) ∧
      ∃ w, Reaches (World.step defaultService) Unrestricted
        (World.start defaultService startedInAcme 0) w ∧ w.quiet ∧ ¬Serving w := by
  have hstopped : ∀ s : Session, s.sandboxID = "sb-1" →
      currentSandbox s [{ firstSandbox with desired := .stopped }] =
        some { firstSandbox with desired := .stopped } := by
    intro s hs
    simp [currentSandbox, hs, firstSandbox]
  constructor
  · have hrun : Reaches (World.step defaultService) (Undisturbed defaultService)
        (World.start defaultService startedInAcme 0)
        { session := firstTurn, sandboxes := [{ firstSandbox with desired := .stopped }]
          works := [.ended, .ended, .ended,
            .decided .service firstTurn [firstSandbox]
              (defaultConfig.step firstTurn
                { now := 10 * minute, sandboxes := [firstSandbox] }).session
              [⟨.revokeTokens, "sb-1"⟩] true] } :=
      reaches_of_exec stopsLostRunner _ _ (by decide)
    exact ⟨_, hrun, not_serving rfl (hstopped firstTurn rfl) rfl⟩
  · have hrun : Reaches (World.step defaultService) Unrestricted
        (World.start defaultService startedInAcme 0)
        { session := secondTurn, sandboxes := [{ firstSandbox with desired := .stopped }]
          revoked := ["sb-1"], works := List.replicate 6 .ended } :=
      reaches_of_exec handsOutWhileEnding _ _ (by decide)
    exact ⟨_, hrun, by decide, not_serving rfl (hstopped secondTurn rfl) rfl⟩

end Flow.Ports.Coding
