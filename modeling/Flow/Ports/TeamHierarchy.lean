import Flow.Verified.Layers
import Flow.Verified.Run

/-!
# The hierarchy of teams

A team has at most one parent.  `validateTeamParent` accepts a new parent when the walk
up from it does not meet the team, and when the depth it finds there and the height of
the team fit under `maxTeamDepth`.  The height is read from the index of children, which
leaves retired teams out.

The walk up reads the parents themselves, so that no cycle is ever made.  The height is
too small for a team with retired teams below it, and an accepted change can put those
too deep (`chain_through_retired`).
-/

namespace Flow.Ports.TeamHierarchy

open List Relation Flow.Verified.Layers Flow.Verified.Run

variable {κ : Type} [DecidableEq κ]

structure Team (κ : Type) where
  id : κ
  retired : Bool

structure Bootstrap (κ : Type) where
  teams : List (Team κ)
  /-- `TeamSettings[id].ParentTeamID`, with `none` for the empty text. -/
  parentTeamID : κ → Option κ

def maxTeamDepth : Nat := 4

/-- `TeamByID`, which has the last team of an id, finds one that is not retired. -/
def Bootstrap.available (data : Bootstrap κ) (id : κ) : Bool :=
  (data.teams.reverse.find? (·.id = id)).any (!·.retired)

/-- `TeamChildren`, as `RebuildTeamDirectory` fills it. -/
def Bootstrap.teamChildren (data : Bootstrap κ) (id : κ) : List κ :=
  (data.teams.filter fun team => !team.retired && data.parentTeamID team.id = some id).map Team.id

/-- The walk up to the root, with the depth of the team below it.  A walk that is cut off
counts as one that came to the root, which enough fuel excludes. -/
def Bootstrap.ascend (data : Bootstrap κ) : Nat → List κ → Nat → Option κ → Except String Nat
  | _, _, depth, none => .ok depth
  | 0, _, depth, some _ => .ok depth
  | fuel + 1, seen, depth, some id =>
    if id ∈ seen then .error "a team cannot be its own ancestor"
    else if data.available id then
      data.ascend fuel (id :: seen) (depth + 1) (data.parentTeamID id)
    else .error "parent team is unavailable"

/-- The walk down from the nodes of a stack, each with its depth. -/
def Bootstrap.descend (data : Bootstrap κ) : Nat → List κ → List (κ × Nat) → Except String Unit
  | _, _, [] => .ok ()
  | 0, _, _ :: _ => .ok ()
  | fuel + 1, seen, (id, depth) :: stack =>
    if id ∈ seen then .error "team hierarchy contains a cycle"
    else if depth > maxTeamDepth then .error "teams can only be nested five levels deep"
    else data.descend fuel (id :: seen)
      (((data.teamChildren id).map fun child => (child, depth + 1)).reverse ++ stack)

def Bootstrap.validateTeamParent (data : Bootstrap κ) (teamID : κ) :
    Option κ → Except String Unit
  | none => .ok ()
  | some parentID =>
    if data.available parentID then do
      let depth ← data.ascend (data.teams.length + 1) [teamID] 0 parentID
      data.descend (data.teams.length + 2) [] [(teamID, depth)]
    else .error "parent team is unavailable"

inductive Label (κ : Type) where
  | setParent (teamID : κ) (parentID : Option κ)
  | create (teamID : κ) (parentID : Option κ)
  | retire (teamID : κ) (retired : Bool)

def Bootstrap.ids (data : Bootstrap κ) : List κ := data.teams.map Team.id

def Bootstrap.setParent (data : Bootstrap κ) (teamID : κ) (parentID : Option κ) : Bootstrap κ :=
  { data with parentTeamID := Function.update data.parentTeamID teamID parentID }

def step (data : Bootstrap κ) : Label κ → Option (Bootstrap κ)
  | .setParent teamID parentID =>
    if teamID ∈ data.ids ∧ data.validateTeamParent teamID parentID = .ok () then
      some (data.setParent teamID parentID)
    else none
  | .create teamID parentID =>
    if teamID ∉ data.ids ∧ data.validateTeamParent teamID parentID = .ok () then
      some { data.setParent teamID parentID with teams := data.teams ++ [⟨teamID, false⟩] }
    else none
  | .retire teamID retired =>
    some { data with
      teams := data.teams.map fun team =>
        if team.id = teamID then { team with retired } else team }

/-- The parents of a team, as edges. -/
def Bootstrap.parents (data : Bootstrap κ) (id : κ) : List κ :=
  if id ∈ data.ids then (data.parentTeamID id).toList else []

/-- The workspace with every team taken back. -/
def Bootstrap.unretired (data : Bootstrap κ) : Bootstrap κ :=
  { data with teams := data.teams.map fun team => ⟨team.id, false⟩ }

/-- The new parent is accepted as well when the height counts the retired teams. -/
def Sound (data : Bootstrap κ) : Label κ → Prop
  | .setParent teamID parentID | .create teamID parentID =>
    data.unretired.validateTeamParent teamID parentID = .ok ()
  | .retire _ _ => True

instance (data : Bootstrap κ) (l : Label κ) : Decidable (Sound data l) :=
  match l with
  | .setParent _ _ | .create _ _ => inferInstanceAs (Decidable (_ = _))
  | .retire _ _ => isTrue trivial

/-! ## What an accepted parent says -/

section Walks

variable {data : Bootstrap κ} {teamID id x y : κ} {depth found fuel : Nat}

theorem link_iff : Link data.parents x y ↔ x ∈ data.ids ∧ data.parentTeamID x = some y := by
  unfold Link Bootstrap.parents
  split <;> simp_all

theorem mem_ids_of_available (h : data.available id) : id ∈ data.ids := by
  obtain ⟨team, hfind, _⟩ := (Option.any_eq_true _ _).mp h
  refine mem_map.mpr ⟨team, mem_reverse.mp (mem_of_find?_eq_some hfind), ?_⟩
  simpa using find?_some hfind

theorem mem_teamChildren (hlive : ∀ team ∈ data.teams, team.retired = false)
    (h : Link data.parents x y) : x ∈ data.teamChildren y := by
  obtain ⟨hmem, hparent⟩ := link_iff.mp h
  obtain ⟨team, hteam, rfl⟩ := mem_map.mp hmem
  exact mem_map_of_mem (mem_filter.mpr ⟨hteam, by simp [hlive team hteam, hparent]⟩)

/-- A walk up that comes to the root has counted every chain above it, and has not met
the teams seen before. -/
theorem above_of_ascend (teamID : κ) {seen : List κ} {next : Option κ}
    (hids : seen ⊆ teamID :: data.ids) (hnodup : seen.Nodup)
    (hfuel : data.ids.length + 1 < seen.length + fuel)
    (h : data.ascend fuel seen depth next = .ok found) :
    depth ≤ found ∧ ∀ p, next = some p → (∀ k ∈ seen, ¬ReflTransGen (Link data.parents) p k) ∧
      ∀ above, (p :: above).IsChain (Link data.parents) → depth + above.length < found := by
  induction fuel, seen, depth, next using Bootstrap.ascend.induct data with
  | case1 fuel seen depth =>
    rw [Bootstrap.ascend] at h
    cases h
    exact ⟨Nat.le_refl _, nofun⟩
  | case2 seen depth id =>
    have hle := (subperm_of_subset hnodup hids).length_le
    rw [length_cons] at hle
    omega
  | case3 | case5 => simp_all [Bootstrap.ascend]
  | case4 fuel seen depth id hseen havailable ih =>
    rw [Bootstrap.ascend, if_neg hseen, if_pos havailable] at h
    obtain ⟨hle, hup⟩ := ih
      (cons_subset.mpr ⟨mem_cons_of_mem _ (mem_ids_of_available havailable), hids⟩)
      (nodup_cons.mpr ⟨hseen, hnodup⟩) (by rw [length_cons]; omega) h
    refine ⟨by omega, ?_⟩
    rintro _ ⟨⟩
    refine ⟨fun k hk hreach => ?_, fun above habove => ?_⟩
    · rcases hreach.cases_head with rfl | ⟨p, hlink, hreach⟩
      · exact hseen hk
      · exact (hup p (link_iff.mp hlink).2).1 k (mem_cons_of_mem _ hk) hreach
    · cases above with
      | nil => exact hle
      | cons p above =>
        obtain ⟨hlink, habove⟩ := isChain_cons_cons.mp habove
        have hlt := (hup p (link_iff.mp hlink).2).2 above habove
        rw [length_cons]
        omega

/-- A walk down that ends has measured every chain below the nodes of its stack. -/
theorem below_of_descend (hlive : ∀ team ∈ data.teams, team.retired = false) (teamID : κ)
    {seen : List κ} {stack : List (κ × Nat)} (hids : seen ⊆ teamID :: data.ids)
    (hnodup : seen.Nodup) (hstack : ∀ item ∈ stack, item.1 ∈ teamID :: data.ids)
    (hfuel : data.ids.length + 1 < seen.length + fuel) (h : data.descend fuel seen stack = .ok ()) :
    ∀ item ∈ stack, ∀ below, (below ++ [item.1]).IsChain (Link data.parents) →
      item.2 + below.length ≤ maxTeamDepth := by
  induction fuel, seen, stack using Bootstrap.descend.induct data with
  | case1 => nofun
  | case2 seen item stack =>
    have hle := (subperm_of_subset hnodup hids).length_le
    rw [length_cons] at hle
    omega
  | case3 | case4 => simp_all [Bootstrap.descend]
  | case5 fuel seen id depth stack hseen hdepth ih =>
    rw [Bootstrap.descend, if_neg hseen, if_neg hdepth] at h
    have hpushed : ∀ item ∈ ((data.teamChildren id).map fun child => (child, depth + 1)).reverse,
        item.1 ∈ data.ids := by
      intro item hitem
      obtain ⟨child, hchild, rfl⟩ := mem_map.mp (mem_reverse.mp hitem)
      exact map_subset _ (filter_subset_self _) hchild
    have hdown := ih (cons_subset.mpr ⟨hstack _ mem_cons_self, hids⟩)
      (nodup_cons.mpr ⟨hseen, hnodup⟩)
      (fun item hitem => (mem_append.mp hitem).elim (mem_cons_of_mem _ <| hpushed item ·)
        (hstack item <| mem_cons_of_mem _ ·)) (by rw [length_cons]; omega) h
    intro item hitem below hbelow
    rcases mem_cons.mp hitem with rfl | hitem
    · cases below using reverseRecOn with
      | nil => exact Nat.le_of_not_gt hdepth
      | append_singleton below child =>
        rw [append_assoc, singleton_append, isChain_append_cons_cons] at hbelow
        have hchild : child ∈ data.teamChildren id := mem_teamChildren hlive hbelow.2.1
        have hle := hdown (child, depth + 1)
          (mem_append_left _ (mem_reverse.mpr (mem_map_of_mem hchild))) below hbelow.1
        simp only [length_append, length_singleton]
        omega
    · exact hdown item (mem_append_right _ hitem) below hbelow

/-- What the check says of a parent that it accepts: the team is not above it, and the
chains fit when no team is retired. -/
theorem fit_of_validate {p : κ} (h : data.validateTeamParent teamID (some p) = .ok ()) :
    ¬ReflTransGen (Link data.parents) p teamID ∧
      ((∀ team ∈ data.teams, team.retired = false) → ∀ below above : List κ,
        (below ++ [teamID]).IsChain (Link data.parents) → (p :: above).IsChain (Link data.parents) →
            below.length + above.length + 2 ≤ maxTeamDepth + 1) := by
  rw [Bootstrap.validateTeamParent] at h
  split at h
  · cases hup : data.ascend (data.teams.length + 1) [teamID] 0 (some p) with
    | error =>
      rw [hup] at h
      cases h
    | ok depth =>
      rw [hup] at h
      have hids : data.ids.length = data.teams.length := length_map _
      obtain ⟨_, hup⟩ :=
        above_of_ascend teamID (by simp) (by simp) (by rw [length_singleton]; omega) hup
      obtain ⟨hback, habove⟩ := hup p rfl
      refine ⟨hback teamID mem_cons_self, fun hlive below above hbelow hchain => ?_⟩
      have hlt := habove above hchain
      have hle : depth + below.length ≤ maxTeamDepth :=
        below_of_descend hlive teamID (nil_subset _) nodup_nil (by simp) (by simp [Bootstrap.ids]) h
          _ mem_cons_self below hbelow
      omega
  · cases h

end Walks

section Runs

variable {data data' : Bootstrap κ} {l : Label κ}

theorem parents_unretired : data.unretired.parents = data.parents := by
  have hids : data.unretired.ids = data.ids := List.map_map
  funext id
  simp only [Bootstrap.parents, hids]
  rfl

/-- A change sets the parent of one team, which was accepted, or no parent. -/
theorem parents_step (hstep : step data l = some data') :
    data'.parents = data.parents ∨ ∃ teamID parentID,
      data.validateTeamParent teamID parentID = .ok () ∧
        (Sound data l → data.unretired.validateTeamParent teamID parentID = .ok ()) ∧
          (∀ k, k ≠ teamID → data'.parents k ⊆ data.parents k) ∧
            data'.parents teamID ⊆ parentID.toList := by
  cases l with
  | setParent teamID parentID =>
    obtain ⟨⟨_, haccepted⟩, hstep⟩ := Option.ite_none_right_eq_some.mp hstep
    cases hstep
    refine .inr ⟨teamID, parentID, haccepted, id, fun k hk => ?_, ?_⟩
    · simp [Bootstrap.parents, Bootstrap.setParent, Bootstrap.ids, hk]
    · simp only [Bootstrap.parents, Bootstrap.setParent, Function.update_self]
      split <;> simp
  | create teamID parentID =>
    obtain ⟨⟨_, haccepted⟩, hstep⟩ := Option.ite_none_right_eq_some.mp hstep
    cases hstep
    refine .inr ⟨teamID, parentID, haccepted, id, fun k hk => ?_, ?_⟩ <;>
      simp [Bootstrap.parents, Bootstrap.setParent, Bootstrap.ids, *]
  | retire teamID retired =>
    cases hstep
    have hids : (data.teams.map fun team =>
        if team.id = teamID then { team with retired } else team).map Team.id = data.ids := by
      rw [List.map_map]
      exact map_congr_left fun team _ => by simp only [Function.comp_apply]; split <;> rfl
    left
    funext id
    simp only [Bootstrap.parents]
    rw [Bootstrap.ids, hids]

/-- No change makes a cycle: chains stay bounded, by twice the bound at most. -/
theorem exists_bounded_step (h : ∃ n, Bounded data.parents n) (hstep : step data l = some data') :
    ∃ n, Bounded data'.parents n := by
  obtain ⟨n, h⟩ := h
  rcases parents_step hstep with heq | ⟨teamID, parentID, haccepted, _, hother, hself⟩
  · exact ⟨n, heq ▸ h⟩
  · have hwider : Bounded data.parents (n + n) := fun chain hchain =>
      Nat.le_trans (h chain hchain) (Nat.le_add_left n n)
    refine ⟨n + n, hwider.extend hother (fun p hp _ => ?_)
      fun p _ _ below above hbelow habove => ?_⟩
    · obtain rfl := Option.mem_toList.mp (hself hp)
      exact (fit_of_validate haccepted).1
    · have hle := h _ hbelow
      have hle' := h _ habove
      simp only [length_append, length_cons] at hle hle'
      omega

theorem bounded_step (h : Bounded data.parents (maxTeamDepth + 1)) (hsound : Sound data l)
    (hstep : step data l = some data') : Bounded data'.parents (maxTeamDepth + 1) := by
  rcases parents_step hstep with heq | ⟨teamID, parentID, _, haccepted, hother, hself⟩
  · exact heq ▸ h
  · have hfits : ∀ p ∈ data'.parents teamID, _ := fun p hp =>
      fit_of_validate (Option.mem_toList.mp (hself hp) ▸ haccepted hsound)
    rw [parents_unretired] at hfits
    refine h.extend hother (fun p hp _ => (hfits p hp).1) fun p hp _ => (hfits p hp).2 ?_
    intro team hteam
    obtain ⟨_, _, rfl⟩ := mem_map.mp hteam
    rfl

/-- **The hierarchy has no cycle, and no chain that is too long** when the accepted
parents are accepted with the retired teams counted as well. -/
theorem bounded_of_reaches {start : Bootstrap κ}
    (hstart : Bounded start.parents (maxTeamDepth + 1)) :
    (Reaches step Unrestricted start data → Acyclic data.parents) ∧
      (Reaches step Sound start data → Bounded data.parents (maxTeamDepth + 1)) := by
  constructor
  · intro hrun
    obtain ⟨n, h⟩ := hrun.invariant (fun _ _ _ h _ hstep => exists_bounded_step h hstep)
      ⟨_, hstart⟩
    exact h.acyclic
  · exact fun hrun =>
      hrun.invariant (fun _ _ _ h hsound hstep => bounded_step h hsound hstep) hstart

end Runs

def empty : Bootstrap Nat := ⟨[], fun _ => none⟩

theorem bounded_empty : Bounded empty.parents (maxTeamDepth + 1) := by
  intro chain hchain
  cases hchain with
  | nil | singleton => simp
  | cons_cons hlink => cases hlink

/-- Four levels of teams, and a second root with a retired team below it. -/
def teams : List (Label Nat) :=
  [.create 0 none, .create 1 (some 0), .create 2 (some 1), .create 3 (some 2), .create 4 none,
    .create 5 (some 4), .retire 5 true]

instance (data : Bootstrap Nat) (x y : Nat) : Decidable (Link data.parents x y) :=
  inferInstanceAs (Decidable (y ∈ data.parents x))

/-- The second root is moved under the third level. -/
theorem bounded_teams : ∃ data, Reaches step Sound empty data ∧
    (data.available 5 = false ∧ [5, 4, 2, 1, 0].IsChain (Link data.parents)) ∧
    Bounded data.parents (maxTeamDepth + 1) :=
  exists_reaches_and (teams ++ [.setParent 4 (some 2)]) empty (by decide) fun _ hrun _ =>
    (bounded_of_reaches bounded_empty).2 hrun

/-- The second root is moved under the fourth level. -/
theorem chain_through_retired : ∃ data, Reaches step Unrestricted empty data ∧
    [5, 4, 3, 2, 1, 0].IsChain (Link data.parents) :=
  exists_reaches (teams ++ [.setParent 4 (some 3)]) empty (by decide)

end Flow.Ports.TeamHierarchy
