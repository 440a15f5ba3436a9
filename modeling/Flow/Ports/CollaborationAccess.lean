import Flow.Ports.Collaboration

/-!
# Which update frames are accepted

Two promises about the update frames of a socket: no frame is accepted by an
access that was read before the last change, once a check has recorded one that
was read after it; and no frame is accepted after the document was taken from
the socket.
-/

namespace Flow.Ports.Collaboration

open List Option Flow.Verified Run Slots Function

/-! ## What is promised -/

/-- Once a check that read after the last change has recorded what it read, the value that
allowed the frame was read after it too. -/
def Decision.Current (decision : Decision) : Prop :=
  decision.settled → ∀ readAt ∈ decision.readAt, readAt = decision.changes

/-- The socket held access that allows editing, or a read of the frame's own
allowed it. -/
def Decision.Allowed (decision : Decision) : Prop :=
  decision.held ∨ decision.read = some true

instance (decision : Decision) : Decidable decision.Current :=
  inferInstanceAs (Decidable (_ → _))

instance (decision : Decision) : Decidable decision.Allowed :=
  inferInstanceAs (Decidable (_ ∨ _))

/-- Whether a step keeps the order of the reads: a check that read before the last change does
not set the edit access after one that read after it. -/
def State.inOrder (s : State) (a : Label) : Bool :=
  match s.touching a with
  | some (id, .setEditAccess _ readAt) => !s.settled id || readAt == s.changes id
  | _ => true

def InOrder (s : State) (a : Label) : Prop := s.inOrder a

instance (s : State) (a : Label) : Decidable (InOrder s a) :=
  inferInstanceAs (Decidable (_ = true))

/-- The handler knows that the document is joined and has not looked up its
issue, or that it has none and has not looked up the access. -/
def Frame.looking (frame : Frame) : Bool :=
  frame.stage == .joined || frame.stage == .standalone

/-- Whether the section of a step revokes no document that a frame is about to
look up. -/
def State.unobserved (s : State) (a : Label) : Bool :=
  match s.touching a with
  | some (id, .revoke _) => s.frames.all fun frame => frame.id != id || !frame.looking
  | _ => true

def Unobserved (s : State) (a : Label) : Prop := s.unobserved a

instance (s : State) (a : Label) : Decidable (Unobserved s a) :=
  inferInstanceAs (Decidable (_ = true))

/-! ## Entries -/

/-- The entry of a joined issue description, of a joined standalone document, or
of a document that is not joined. -/
structure Entry.WellFormed (entry : Entry) : Prop where
  issue : entry.issueAccess.isSome = entry.issueID.isSome
  document : entry.issueID.isSome → entry.documentAccess = none
  joined : entry.joined = (entry.issueID.isSome || entry.documentAccess.isSome)

theorem Entry.wellFormed_ofIssue (issueID : String) (access : IssueSocketAccess) :
    (Entry.ofIssue issueID access).WellFormed :=
  ⟨rfl, fun _ => rfl, rfl⟩

theorem Entry.wellFormed_ofDocument (access : DocumentSocketAccess) :
    (Entry.ofDocument access).WellFormed :=
  ⟨rfl, fun h => (by cases h), rfl⟩

/-- Both entries are filled in the same maps. -/
structure Entry.Alike (entry entry' : Entry) : Prop where
  joined : entry'.joined = entry.joined
  issueID : entry'.issueID = entry.issueID
  issueAccess : entry'.issueAccess.isSome = entry.issueAccess.isSome
  documentAccess : entry'.documentAccess.isSome = entry.documentAccess.isSome

theorem Entry.Alike.refl (entry : Entry) : entry.Alike entry := ⟨rfl, rfl, rfl, rfl⟩

variable {entry : Entry}

theorem Entry.Alike.wellFormed {entry' : Entry} (h : entry.Alike entry')
    (hwf : entry.WellFormed) : entry'.WellFormed where
  issue := by rw [h.issueAccess, h.issueID, hwf.issue]
  document := by
    intro hissue
    rw [h.issueID] at hissue
    have hnone := h.documentAccess
    rw [hwf.document hissue] at hnone
    exact isSome_eq_false_iff.1 hnone |> isNone_iff_eq_none.1
  joined := by rw [h.joined, h.issueID, h.documentAccess, hwf.joined]

theorem setEditAccess_alike (now : Nat) (canEdit : Bool) (readAt : Nat) (entry : Entry) :
    entry.Alike (setEditAccess now canEdit readAt entry) := by
  unfold setEditAccess
  split
  · next haccess _ => exact ⟨rfl, rfl, by rw [haccess]; rfl, rfl⟩
  · exact ⟨rfl, rfl, rfl, isSome_map⟩

theorem socketAccessWork_alike (scope : SocketAccessScope) (userID id : String) (entry : Entry) :
    entry.Alike (socketAccessWork scope userID id entry) :=
  ⟨rfl, rfl, isSome_map, isSome_map⟩

theorem Touch.apply_alike (now : Nat) (touch : Touch) (entry : Entry) :
    entry.Alike (touch.apply now entry) ∨ ∃ readAt, touch = .revoke readAt := by
  cases touch with
  | keep => exact Or.inl (Entry.Alike.refl entry)
  | stamp teamID generation => exact Or.inl (⟨rfl, rfl, isSome_map, rfl⟩)
  | setEditAccess canEdit readAt => exact Or.inl (setEditAccess_alike now canEdit readAt entry)
  | revoke readAt => exact Or.inr ⟨readAt, rfl⟩

theorem Touch.apply_wellFormed (now : Nat) (touch : Touch)
    (h : entry.WellFormed) : (touch.apply now entry).WellFormed := by
  rcases touch.apply_alike now entry with halike | ⟨readAt, rfl⟩
  · exact halike.wellFormed h
  · exact (⟨rfl, fun _ => rfl, rfl⟩)

/-- The access that the socket keeps was read at `n`. -/
structure Entry.ReadAt (entry : Entry) (n : Nat) : Prop where
  issue : ∀ access ∈ entry.issueAccess, access.readAt = n
  document : ∀ access ∈ entry.documentAccess, access.readAt = n

theorem stamp_readAt {now : Nat} {teamID : String} {generation n : Nat}
    (h : entry.ReadAt n) : (stamp now teamID generation entry).ReadAt n where
  issue := by
    intro access haccess
    obtain ⟨old, hold, rfl⟩ := map_eq_some_iff.1 haccess
    exact h.issue old hold
  document := h.document

theorem socketAccessWork_readAt {scope : SocketAccessScope} {userID id : String} {n : Nat}
    (h : entry.ReadAt n) : (socketAccessWork scope userID id entry).ReadAt n where
  issue := by
    intro access haccess
    obtain ⟨old, hold, rfl⟩ := map_eq_some_iff.1 haccess
    have hread := h.issue old hold
    split
    · exact hread
    · exact hread
  document := by
    intro access haccess
    obtain ⟨old, hold, rfl⟩ := map_eq_some_iff.1 haccess
    have hread := h.document old hold
    split
    · exact hread
    · exact hread

variable {readAt : Nat}

theorem setEditAccess_readAt {now : Nat} {canEdit : Bool}
    (h : entry.WellFormed) : (setEditAccess now canEdit readAt entry).ReadAt readAt := by
  unfold setEditAccess
  split
  · next hissue =>
      refine ⟨fun access haccess => ?_, fun access haccess => ?_⟩
      · cases haccess
        rfl
      · have hnone := h.document (by rw [hissue]; rfl)
        rw [hnone] at haccess
        cases haccess
  · next hnot =>
      refine ⟨fun access haccess => ?_, fun access haccess => ?_⟩
      · have hsome := h.issue
        rw [mem_def.1 haccess] at hsome
        obtain ⟨issueID, hissueID⟩ := isSome_iff_exists.1 hsome.symm
        exact absurd hissueID (hnot access issueID haccess)
      · obtain ⟨old, _, rfl⟩ := map_eq_some_iff.1 haccess
        rfl

/-! ## What the handler decides -/

/-- How a step of the handler comes to allow an update frame. -/
inductive Decides (sight : Sight) : FrameStage → Touch → Decision → Prop
  | issue {access : IssueSocketAccess} (haccess : sight.entry.issueAccess = some access)
      (hedit : access.canEdit = true) :
      Decides sight .editable .keep (sight.decide none (some access.readAt))
  | absent (haccess : sight.entry.documentAccess = none) :
      Decides sight .standalone .keep (sight.decide none none)
  | document {access : DocumentSocketAccess} (haccess : sight.entry.documentAccess = some access)
      (hedit : access.canEdit = true) :
      Decides sight .standalone .keep (sight.decide none (some access.readAt))
  | role {view : DocumentView} {readAt : Nat} :
      Decides sight (.role view readAt) (.setEditAccess view.allows readAt)
        (sight.decide (some true) (some readAt))

section Handler

variable {sight : Sight} {stage stage' : FrameStage} {touch : Touch} {decision : Decision}
  {answer : Answer} {kind : FrameKind}

theorem decides_of_canEdit (h : (documentSocketCanEdit sight).decision = some decision) :
    Decides sight .standalone .keep decision := by
  revert h
  fun_cases documentSocketCanEdit sight
  all_goals rintro ⟨⟩
  next haccess => exact .absent haccess
  next haccess _ hedit => exact .document haccess hedit

theorem decides_of_role {view : DocumentView}
    (h : (documentSocketRole sight readAt view).decision = some decision) :
    Decides sight (.role view readAt) (.setEditAccess view.allows readAt) decision := by
  revert h
  fun_cases documentSocketRole sight readAt view
  all_goals rintro ⟨⟩
  exact .role

theorem decision_of_handle
    (h : handleCollaborationFrame sight answer kind stage = some (stage', touch))
    (hdecision : stage'.decision = some decision) :
    stage.decision = some decision ∨ Decides sight stage touch decision := by
  revert h
  fun_cases handleCollaborationFrame sight answer kind stage
  case case13 =>
    intro h
    obtain ⟨_, _, ⟨⟩⟩ := map_eq_some_iff.1 h
    cases hdecision
  all_goals rintro ⟨⟩
  case case1 => split at hdecision <;> cases hdecision
  case case15 hany =>
    obtain ⟨access, haccess, hedit⟩ := (any_eq_true _ _).1 hany
    cases hdecision
    rw [haccess]
    exact Or.inr (.issue haccess hedit)
  case case17 => exact Or.inr (decides_of_canEdit hdecision)
  case case20 => exact Or.inr (decides_of_role hdecision)
  case case21 => exact Or.inl hdecision
  all_goals cases hdecision

def FrameStage.Backed (entry : Entry) : FrameStage → Prop
  | .joined => entry.joined = true
  | .standalone => entry.documentAccess.isSome = true
  | _ => True

theorem FrameStage.Backed.alike {entry' : Entry} (h : stage.Backed entry)
    (halike : entry.Alike entry') : stage.Backed entry' := by
  cases stage with
  | joined => exact halike.joined.trans h
  | standalone => exact halike.documentAccess.trans h
  | _ => trivial

theorem backed_of_handle
    (h : handleCollaborationFrame sight answer kind stage = some (stage', touch))
    (hwf : sight.entry.WellFormed) (hbacked : stage.Backed sight.entry) :
    stage'.Backed (touch.apply sight.now sight.entry) := by
  revert h
  fun_cases handleCollaborationFrame sight answer kind stage
  case case13 =>
    intro h
    obtain ⟨_, _, ⟨⟩⟩ := map_eq_some_iff.1 h
    trivial
  all_goals rintro ⟨⟩
  case case1 =>
    split
    · assumption
    · trivial
  case case3 hissue =>
    have hjoined := hwf.joined
    rw [show sight.entry.joined = true from hbacked, hissue] at hjoined
    exact hjoined.symm
  case case17 => fun_cases documentSocketCanEdit sight <;> trivial
  case case20 view readAt => fun_cases documentSocketRole sight readAt view <;> trivial
  all_goals trivial

end Handler

/-- What a step does to the entries, the reads and the frames. -/
inductive Moves (s : State) : Label → State → Prop
  | tick (duration : Nat) : Moves s (.tick duration) { s with now := s.now + duration }
  | change (id : String) (view : View) :
      Moves s (.change id view)
        { s with
          views := update s.views id view
          changes := update s.changes id (s.changes id + 1)
          settled := update s.settled id false }
  | work (scope : SocketAccessScope) :
      Moves s (.work scope)
        { s with entries := fun id => socketAccessWork scope s.userID id (s.entries id) }
  | recheck (id : String) (kind : DocumentKind) :
      Moves s (.recheck id kind) { s with checks := s.checks ++ [{ id, kind }] }
  | check {i : Nat} {fails : Bool} {id : String} {touch : Touch} {checks : List Check}
      (htouch : s.touching (.check i fails) = some (id, touch)) :
      Moves s (.check i fails) { s.touch id touch with checks }
  | frame (id : String) (kind : FrameKind) :
      Moves s (.frame id kind) { s with frames := s.frames ++ [{ id, kind }] }
  | advance {j : Nat} {answer : Answer} {frame : Frame} {stage : FrameStage} {touch : Touch}
      (htouch : s.touching (.advance j answer) = some (frame.id, touch)) (hframe : frame ∈ s.frames)
      (hnext : handleCollaborationFrame (s.sight frame.id) answer frame.kind frame.stage =
        some (stage, touch)) :
      Moves s (.advance j answer)
        { s.touch frame.id touch with frames := s.frames.set j { frame with stage } }
  | revoke (id : String) : Moves s (.revoke id) (s.touch id (.revoke none))

section Runs

variable {s t : State} {a : Label} {id : String}

theorem moves_of_step (h : s.step a = some t) : Moves s a t := by
  cases a with
  | tick => cases h; exact .tick _
  | change => cases h; exact .change _ _
  | work => cases h; exact .work _
  | recheck => cases h; exact .recheck _ _
  | check i fails =>
    obtain ⟨⟨check, stage, touch⟩, hnext, heq⟩ := map_eq_some_iff.1 h
    cases heq
    exact .check (map_eq_some_iff.2 ⟨_, hnext, rfl⟩)
  | frame => cases h; exact .frame _ _
  | advance j answer =>
    obtain ⟨⟨frame, stage, touch⟩, hnext, heq⟩ := map_eq_some_iff.1 h
    cases heq
    obtain ⟨frame', hframe, hmap⟩ := bind_eq_some_iff.1 hnext
    obtain ⟨next, hhandle, heq⟩ := map_eq_some_iff.1 hmap
    cases heq
    exact .advance (map_eq_some_iff.2 ⟨_, hnext, rfl⟩) (mem_of_getElem? hframe) hhandle
  | revoke => cases h; exact .revoke _

section Touched

variable (s : State) (touch : Touch) {id' : String}

theorem touch_entries_self : (s.touch id touch).entries id = touch.apply s.now (s.entries id) :=
  update_self ..

theorem touch_entries_of_ne (h : id' ≠ id) : (s.touch id touch).entries id' = s.entries id' :=
  update_of_ne h ..

theorem touch_settled_self : (s.touch id touch).settled id =
      (s.settled id || touch.recorded == some (s.changes id)) :=
  update_self ..

theorem touch_settled_of_ne (h : id' ≠ id) : (s.touch id touch).settled id' = s.settled id' :=
  update_of_ne h ..

end Touched

/-- Every entry is that of a joined document or of one that is not joined. -/
def State.WellFormed (s : State) : Prop := ∀ id, (s.entries id).WellFormed

theorem State.WellFormed.touch (h : s.WellFormed) (id : String) (touch : Touch) :
    (s.touch id touch).WellFormed := by
  intro id'
  by_cases heq : id' = id
  · subst heq
    rw [touch_entries_self]
    exact touch.apply_wellFormed s.now (h id')
  · rw [touch_entries_of_ne s touch heq]
    exact h id'

theorem State.WellFormed.step (h : s.WellFormed) (hmove : Moves s a t) : t.WellFormed := by
  cases hmove with
  | tick | change | recheck | frame => exact h
  | work scope => exact fun id => (socketAccessWork_alike scope s.userID id _).wellFormed (h id)
  | check | advance | revoke => exact h.touch _ _

/-! ## Reads in order -/

/-- What the socket keeps for a document was read after the last change, once a
check that read after it has recorded what it read. -/
def State.Settled (s : State) : Prop :=
  ∀ id, s.settled id = true → (s.entries id).ReadAt (s.changes id)

theorem readAt_of_inOrder {canEdit : Bool} (ha : InOrder s a)
    (htouch : s.touching a = some (id, .setEditAccess canEdit readAt))
    (hsettled : s.settled id) : readAt = s.changes id := by
  unfold InOrder State.inOrder at ha
  rw [htouch] at ha
  simpa [hsettled] using ha

theorem State.Settled.touch {touch : Touch} (h : s.Settled) (hwf : s.WellFormed) (ha : InOrder s a)
    (htouch : s.touching a = some (id, touch)) : (s.touch id touch).Settled := by
  intro id' hsettled
  by_cases heq : id' = id
  · subst heq
    rw [touch_settled_self] at hsettled
    rw [touch_entries_self]
    cases touch with
    | keep => exact h id' (by simpa [Touch.recorded] using hsettled)
    | stamp teamID generation =>
      exact stamp_readAt (h id' (by simpa [Touch.recorded] using hsettled))
    | setEditAccess canEdit readAt =>
      have hread : readAt = s.changes id' := by
        rcases Bool.or_eq_true_iff.1 hsettled with hsettled | hrecorded
        · exact readAt_of_inOrder ha htouch hsettled
        · exact some.inj (eq_of_beq hrecorded)
      exact hread ▸ setEditAccess_readAt (hwf id')
    | revoke readAt =>
      exact ⟨fun _ haccess => (by cases haccess), fun _ haccess => (by cases haccess)⟩
  · rw [touch_settled_of_ne s touch heq] at hsettled
    rw [touch_entries_of_ne s touch heq]
    exact h id' hsettled

theorem State.Settled.step (h : s.Settled) (hwf : s.WellFormed) (ha : InOrder s a)
    (hmove : Moves s a t) : t.Settled := by
  cases hmove with
  | tick | recheck | frame => exact h
  | change id view =>
    intro id' hsettled
    change update s.settled id false id' = true at hsettled
    change (s.entries id').ReadAt (update s.changes id _ id')
    by_cases heq : id' = id
    · subst heq
      rw [update_self] at hsettled
      cases hsettled
    · rw [update_of_ne heq] at hsettled ⊢
      exact h id' hsettled
  | work scope => exact fun id hsettled => socketAccessWork_readAt (h id hsettled)
  | check htouch => exact h.touch hwf ha htouch
  | advance htouch => exact h.touch hwf ha htouch
  | revoke id => exact h.touch hwf ha rfl

/-- A frame that a step allows is allowed by what the socket keeps, which was
read in order, or by its own read. -/
theorem current_of_decides {stage : FrameStage} {touch : Touch} {decision : Decision}
    (h : s.Settled) (ha : InOrder s a) (htouch : s.touching a = some (id, touch))
    (hdecides : Decides (s.sight id) stage touch decision) : decision.Current := by
  intro hsettled readAt hread
  cases hdecides with
  | issue haccess hedit =>
    cases hread
    exact (h id hsettled).issue _ haccess
  | absent haccess => cases hread
  | document haccess hedit =>
    cases hread
    exact (h id hsettled).document _ haccess
  | role =>
    cases hread
    exact readAt_of_inOrder ha htouch hsettled

def State.NeverStale (s : State) : Prop :=
  ∀ frame ∈ s.frames, ∀ decision ∈ frame.stage.decision, decision.Current

instance (s : State) : Decidable s.NeverStale := by
  unfold State.NeverStale
  infer_instance

theorem decisions_step {P : Decision → Prop} (hmove : Moves s a t)
    (h : ∀ frame ∈ s.frames, ∀ decision ∈ frame.stage.decision, P decision)
    (hnew : ∀ frame ∈ s.frames, ∀ touch decision, s.touching a = some (frame.id, touch) →
      Decides (s.sight frame.id) frame.stage touch decision → P decision) :
    ∀ frame ∈ t.frames, ∀ decision ∈ frame.stage.decision, P decision := by
  cases hmove with
  | tick | change | work | recheck | check | revoke => exact h
  | frame id kind => exact forall_push h fun decision hdecision => (by cases hdecision)
  | @advance j answer frame stage touch htouch hframe hnext =>
    refine forall_set h fun decision hdecision => ?_
    rcases decision_of_handle hnext hdecision with hold | hdecides
    · exact h frame hframe decision hold
    · exact hnew frame hframe touch decision htouch hdecides

end Runs

/-- A socket whose documents are joined, before its first frame.  Checks may
already run. -/
structure State.Begins (s : State) : Prop where
  wellFormed : s.WellFormed
  settled : ∀ id, s.settled id = false
  frames : s.frames = []

/-- **No frame is accepted by a stale access**, in every run in which no check records an access
read before the last change after one read after it: once a check that read after the last
change has recorded what it read, nothing read before the change allows a frame. -/
theorem current_of_reaches {s t : State} (hs : s.Begins) (h : Reaches State.step InOrder s t) :
    t.NeverStale := by
  have hinvariant : t.WellFormed ∧ t.Settled ∧ t.NeverStale := by
    refine Reaches.invariant (P := fun s => s.WellFormed ∧ s.Settled ∧ s.NeverStale) ?_ h ?_
    · intro s a t ⟨hwf, hsettled, hnever⟩ ha hstep
      have hmove := moves_of_step hstep
      refine ⟨hwf.step hmove, hsettled.step hwf ha hmove, decisions_step hmove hnever ?_⟩
      exact fun frame _ touch decision htouch => current_of_decides hsettled ha htouch
    · refine ⟨hs.wellFormed, fun id hsettled => ?_, fun frame hframe => ?_⟩
      · rw [hs.settled id] at hsettled
        cases hsettled
      · rw [hs.frames] at hframe
        cases hframe
  exact hinvariant.2.2

/-! ### Sockets with one document -/

def socket (entry : Entry) : State where
  now := 0
  userID := "user"
  entries := fun id => if id = "document" then entry else {}
  views := fun _ => ⟨⟨true, true, "team"⟩, .found false .editor⟩
  changes := fun _ => 0
  settled := fun _ => false

theorem socket_begins (h : entry.WellFormed) : (socket entry).Begins where
  wellFormed := by
    intro id
    change (if id = "document" then entry else {}).WellFormed
    split
    · exact h
    · exact (⟨rfl, fun _ => rfl, rfl⟩)
  settled := fun _ => rfl
  frames := rfl

def joinedIssue : Entry :=
  .ofIssue "issue" { teamID := "team", canEdit := true, checkedAt := some 0, readAt := 0 }

def joinedDocument : Entry :=
  .ofDocument { documentID := "document", canEdit := true, checkedAt := some 0, readAt := 0 }

def downgrade : Label := .change "document" ⟨⟨true, false, "team"⟩, .found false .viewer⟩

def reorganise : Label := .change "document" ⟨⟨true, true, "other"⟩, .found false .editor⟩

/-- Some allowed frame was allowed after a check that read after the last
change had recorded what it read. -/
def State.SettledFrame (s : State) : Prop :=
  ∃ frame ∈ s.frames, ∃ decision ∈ frame.stage.decision, decision.settled = true

instance (s : State) : Decidable s.SettledFrame := by
  unfold State.SettledFrame
  infer_instance

/-- Two checks of an issue description overlap a change, and the one that read
before it records first. -/
theorem current_after_overlap :
    ∃ t, Reaches State.step InOrder (socket joinedIssue) t ∧ t.SettledFrame ∧ t.NeverStale := by
  refine exists_reaches_and
    [.recheck "document" .issue, .check 0 false, .check 0 false, reorganise,
      .work { all := true }, .recheck "document" .issue, .check 1 false, .check 1 false,
      .check 0 false, .check 0 false, .check 1 false, .check 1 false,
      .frame "document" .update, .advance 0 .ok, .advance 0 .ok, .advance 0 .ok,
      .advance 0 .ok, .advance 0 .ok, .advance 0 .ok] _ (by decide) fun _ hrun _ => ?_
  exact current_of_reaches (socket_begins (Entry.wellFormed_ofIssue ..)) hrun

/-- **A stale check re-enables editing.** A check reads that the user may edit; the user becomes
a reader, and another check reads and records that; then the first check sets the edit access
that it read. The next update frame is accepted, for an issue description and for a standalone
document. -/
theorem stale_access_accepted :
    (∃ t, Reaches State.step Unrestricted (socket joinedIssue) t ∧ ¬t.NeverStale) ∧
    (∃ t, Reaches State.step Unrestricted (socket joinedDocument) t ∧ ¬t.NeverStale) :=
  ⟨exists_reaches
      [.work { all := true }, .recheck "document" .issue, .check 0 false, .check 0 false, downgrade,
        .work { all := true }, .recheck "document" .issue, .check 1 false, .check 1 false,
        .check 1 false, .check 1 false, .check 0 false, .check 0 false,
        .frame "document" .update, .advance 0 .ok, .advance 0 .ok, .advance 0 .ok,
        .advance 0 .ok, .advance 0 .ok, .advance 0 .ok] _ (by decide),
    exists_reaches
      [.work { all := true }, .recheck "document" .standalone, .check 0 false, downgrade,
        .work { all := true }, .recheck "document" .standalone, .check 1 false, .check 1 false,
        .check 0 false, .frame "document" .update, .advance 0 .ok, .advance 0 .ok,
        .advance 0 .ok, .advance 0 .ok] _ (by decide)⟩

/-! ## Revocations between lookups -/

def State.Backed (s : State) : Prop :=
  ∀ frame ∈ s.frames, frame.stage.Backed (s.entries frame.id)

section Runs

variable {s t : State} {a : Label} {id : String}

theorem not_looking_of_unobserved {readAt : Option Nat} (ha : Unobserved s a)
    (htouch : s.touching a = some (id, .revoke readAt)) {frame : Frame}
    (hframe : frame ∈ s.frames) (hid : frame.id = id) : frame.looking = false := by
  unfold Unobserved State.unobserved at ha
  rw [htouch] at ha
  have hall := all_eq_true.1 ha frame hframe
  simpa [hid] using hall

theorem Frame.backed_of_not_looking {frame : Frame} (h : frame.looking = false) :
    frame.stage.Backed entry := by
  obtain ⟨id, kind, stage⟩ := frame
  cases stage with
  | joined => cases h
  | standalone => cases h
  | _ => trivial

theorem State.Backed.touch {touch : Touch} (h : s.Backed) (ha : Unobserved s a)
    (htouch : s.touching a = some (id, touch)) : (s.touch id touch).Backed := by
  intro frame hframe
  by_cases heq : frame.id = id
  · rw [heq, touch_entries_self]
    rcases touch.apply_alike s.now (s.entries id) with halike | ⟨readAt, rfl⟩
    · exact (heq ▸ h frame hframe).alike halike
    · exact Frame.backed_of_not_looking (not_looking_of_unobserved ha htouch hframe heq)
  · rw [touch_entries_of_ne s touch heq]
    exact h frame hframe

theorem State.Backed.step (h : s.Backed) (hwf : s.WellFormed) (ha : Unobserved s a)
    (hmove : Moves s a t) : t.Backed := by
  cases hmove with
  | tick | change | recheck => exact h
  | work scope => exact fun frame hframe => (h frame hframe).alike (socketAccessWork_alike ..)
  | check htouch => exact h.touch ha htouch
  | frame id kind => exact forall_push h trivial
  | @advance j answer frame stage touch htouch hframe hnext =>
    apply forall_set (h.touch ha htouch)
    rw [touch_entries_self]
    exact backed_of_handle hnext (hwf frame.id) (h frame hframe)
  | revoke id => exact h.touch ha rfl

end Runs

theorem allowed_of_decides {sight : Sight} {stage : FrameStage} {touch : Touch}
    {decision : Decision} (hbacked : stage.Backed sight.entry)
    (h : Decides sight stage touch decision) : decision.Allowed := by
  cases h with
  | issue haccess hedit =>
    apply Or.inl
    change sight.entry.editable = true
    rw [Entry.editable, haccess, any_some, hedit, Bool.true_or]
  | absent haccess =>
    rw [FrameStage.Backed, haccess] at hbacked
    cases hbacked
  | document haccess hedit =>
    apply Or.inl
    change sight.entry.editable = true
    rw [Entry.editable, haccess, any_some, hedit, Bool.or_true]
  | role => exact Or.inr rfl

def State.FailsClosed (s : State) : Prop :=
  ∀ frame ∈ s.frames, ∀ decision ∈ frame.stage.decision, decision.Allowed

instance (s : State) : Decidable s.FailsClosed := by
  unfold State.FailsClosed
  infer_instance

/-- **Frames fail closed**, in every run in which no document is revoked while a frame on it is
between its lookups: a frame is allowed only if the socket then holds access that allows
editing, or the frame itself read that the user may edit. -/
theorem allowed_of_reaches {s t : State} (hs : s.Begins) (h : Reaches State.step Unobserved s t) :
    t.FailsClosed := by
  have hinvariant : t.WellFormed ∧ t.Backed ∧ t.FailsClosed := by
    refine Reaches.invariant (P := fun s => s.WellFormed ∧ s.Backed ∧ s.FailsClosed) ?_ h ?_
    · intro s a t ⟨hwf, hbacked, hclosed⟩ ha hstep
      have hmove := moves_of_step hstep
      refine ⟨hwf.step hmove, hbacked.step hwf ha hmove, decisions_step hmove hclosed ?_⟩
      exact fun frame hframe touch decision _ => allowed_of_decides (hbacked frame hframe)
    · refine ⟨hs.wellFormed, fun frame hframe => ?_, fun frame hframe => ?_⟩
      · rw [hs.frames] at hframe
        cases hframe
      · rw [hs.frames] at hframe
        cases hframe
  exact hinvariant.2.2

def State.Persists (s : State) : Prop :=
  ∃ frame ∈ s.frames, ∃ decision ∈ frame.stage.decision, frame.stage = .ended (.persisted decision)

instance (s : State) : Decidable s.Persists := by
  unfold State.Persists
  infer_instance

/-- A document is revoked after the handler of a frame has looked it up. -/
theorem allowed_before_revocation :
    ∃ t, Reaches State.step Unobserved (socket joinedDocument) t ∧ t.Persists ∧ t.FailsClosed := by
  refine exists_reaches_and
    [.frame "document" .update, .advance 0 .ok, .advance 0 .ok, .advance 0 .ok,
      .revoke "document", .advance 0 .ok] _ (by decide) fun _ hrun _ => ?_
  exact allowed_of_reaches (socket_begins (Entry.wellFormed_ofDocument ..)) hrun

/-- **A frame is accepted after the revocation.** A document is revoked when the handler of a
frame has found it joined. The handler finds no issue, takes it for a standalone document, finds
no access to it, and allows the frame. -/
theorem accepted_after_revocation :
    (∃ t, Reaches State.step Unrestricted (socket joinedIssue) t ∧ t.Persists ∧ ¬t.FailsClosed) ∧
    (∃ t, Reaches State.step Unrestricted (socket joinedDocument) t ∧
      t.Persists ∧ ¬t.FailsClosed) :=
  ⟨exists_reaches
      [.frame "document" .update, .advance 0 .ok, .revoke "document", .advance 0 .ok,
        .advance 0 .ok, .advance 0 .ok] _ (by decide),
    exists_reaches
      [.frame "document" .update, .advance 0 .ok, .advance 0 .ok, .revoke "document",
        .advance 0 .ok, .advance 0 .ok] _ (by decide)⟩

end Flow.Ports.Collaboration
