import Flow.Ports.CodingLease
import Flow.Verified.Slots

/-!
# Wake-ups survive leases

Three statements write the next time of a session: a claim parks it, a release
takes a minimum, and an update writes it together with a new version.  So while
a lease lasts, the next time is determined by the version: what was read under
the lease, at the version that the row still has, is what the row says
(`Reading.Sound.current`).  A wake-up raises the version, and an update that was
read before it is refused; one that was read after it carries the time of the
wake-up on.
-/

namespace Flow.Ports.Leases

open List Option Flow.Verified Run Slots
open Flow.Ports.Coding (Session Time Duration)

variable {s t : State} {row : Row}

theorem millis_codingTime {value : Int} (h : codingTime value ≠ 0) :
    millis (codingTime value) = value := by
  unfold codingTime at h ⊢
  split at h
  · exact absurd rfl h
  · rename_i hpos
    rw [if_neg hpos]
    exact Int.mul_ediv_cancel value (by decide)

theorem millis_scan (h : (scanCodingSession row).nextReconcileAt ≠ 0) :
    millis (scanCodingSession row).nextReconcileAt = row.nextReconcileAt := by
  unfold scanCodingSession at h ⊢
  split at h
  · rename_i hparked
    rw [if_pos hparked]
    exact millis_codingTime h
  · exact absurd rfl h

/-- A session never shows the sentinel. -/
theorem scan_lt_sentinel (h : row.nextReconcileAt ≤ codingLeaseSentinel) :
    millis (scanCodingSession row).nextReconcileAt < codingLeaseSentinel := by
  by_cases hzero : (scanCodingSession row).nextReconcileAt = 0
  · rw [hzero]
    decide
  · have hshown : row.nextReconcileAt ≠ codingLeaseSentinel := by
      intro hparked
      exact hzero (by simp [scanCodingSession, hparked])
    rw [millis_scan hzero]
    exact Int.lt_iff_le_and_ne.2 ⟨h, hshown⟩

variable {row' : Row} {owner : String} {next : Clock} {lease : Nat} {call : Update}
  {updates : List Update} {wake : Wake}

theorem claim_eq_some {now expires : Int} (h : row.claim owner now expires = some row') :
    row.leaseUntil < now ∧ row' = { row with
        leaseOwner := owner, leaseUntil := expires, nextReconcileAt := codingLeaseSentinel } := by
  unfold Row.claim at h
  split at h
  · rename_i hfree
    exact ⟨hfree.2, (some.inj h).symm⟩
  · cases h

theorem release_eq_some (h : row.release owner next = some row') :
    row'.version = row.version ∧ row'.leaseUntil = 0 ∧ row'.nextReconcileAt ≤ row.nextReconcileAt ∧
      row'.nextReconcileAt ≤ millis next.time := by
  unfold Row.release at h
  split at h
  · cases h
    refine ⟨rfl, rfl, ?_, ?_⟩ <;> dsimp only <;> split <;> omega
  · cases h

theorem update_eq_some {before mutated : Session} (h : row.update before mutated = some row') :
    row.version = before.version ∧ row'.version = row.version + 1 ∧
      row'.leaseUntil = row.leaseUntil ∧
      row'.nextReconcileAt =
        if schedules before mutated then millis mutated.nextReconcileAt
        else row.nextReconcileAt := by
  unfold Row.update at h
  dsimp only at h
  split at h
  · cases h
  · split at h
    · rename_i hversion
      cases h
      exact ⟨hversion, by rw [hversion], rfl, rfl⟩
    · cases h

/-! ## Readings -/

/-- What a reading says of the state it is looked at in: which wake-ups came before it, and, at
its lease and version, the next time. -/
structure Reading.Sound (s : State) (reading : Reading) : Prop where
  version_le : reading.session.version ≤ s.row.version
  leases_le : reading.leases ≤ s.leases
  lt_sentinel : millis reading.session.nextReconcileAt < codingLeaseSentinel
  current : s.row.leaseUntil ≠ 0 → reading.leases = s.leases →
    reading.session.version = s.row.version →
    reading.session.nextReconcileAt = (scanCodingSession s.row).nextReconcileAt
  of_version_le : ∀ wake ∈ s.wakes, ∀ lease, wake.lease = some lease →
    wake.version ≤ reading.session.version → lease ≤ reading.leases
  of_lease_lt : ∀ wake ∈ s.wakes, ∀ lease, wake.lease = some lease →
    lease < reading.leases → wake.version ≤ reading.session.version

/-- How a step changes what readings are compared with.  The next time of a
leased row changes with its version only. -/
structure State.Advances (s t : State) : Prop where
  version_le : s.row.version ≤ t.row.version
  leases_le : s.leases ≤ t.leases
  row_eq : t.row.leaseUntil ≠ 0 → t.leases = s.leases → t.row.version = s.row.version →
    t.row = s.row
  wakes : ∀ wake ∈ t.wakes, wake ∈ s.wakes ∨
    (s.row.version < wake.version ∧ ∀ lease, wake.lease = some lease → s.leases ≤ lease)

theorem Reading.Sound.advance {reading : Reading} (h : reading.Sound s) (hst : s.Advances t) :
    reading.Sound t where
  version_le := Nat.le_trans h.version_le hst.version_le
  leases_le := Nat.le_trans h.leases_le hst.leases_le
  lt_sentinel := h.lt_sentinel
  current := by
    intro hleased hleases hversion
    have hleases' : t.leases = s.leases :=
      Nat.le_antisymm (hleases ▸ h.leases_le) hst.leases_le
    have hversion' : t.row.version = s.row.version :=
      Nat.le_antisymm (hversion ▸ h.version_le) hst.version_le
    have hrow : t.row = s.row := hst.row_eq hleased hleases' hversion'
    rw [hrow] at hleased ⊢
    exact h.current hleased (hleases.trans hleases') (hversion.trans hversion')
  of_version_le := by
    intro wake hwake lease hlease hle
    rcases hst.wakes wake hwake with hold | ⟨hversion, _⟩
    · exact h.of_version_le wake hold lease hlease hle
    · have hread := h.version_le
      omega
  of_lease_lt := by
    intro wake hwake lease hlease hlt
    rcases hst.wakes wake hwake with hold | ⟨_, hleases⟩
    · exact h.of_lease_lt wake hold lease hlease hlt
    · have hread := h.leases_le
      have hle := hleases lease hlease
      omega

/-! ## The invariant -/

/-- The holder of a lease reads the session after claiming it. -/
structure Copy.Sound (s : State) (copy : Copy) : Prop where
  reading : copy.reading.Sound s
  lease_le : ∀ lease, copy.lease = some lease → lease ≤ copy.reading.leases

/-- An update without a wake-up of its own carries on a time that it read, or that
was read at the same version. -/
structure Update.Sound (s : State) (call : Update) : Prop where
  reading : call.reading.Sound s
  schedule : call.schedule = call.reading.session.nextReconcileAt ∨
    ∃ copy ∈ s.copies, copy.reading.session.version = call.reading.session.version ∧
      copy.reading.session.nextReconcileAt = call.schedule

structure State.Consistent (s : State) : Prop where
  leaseUntil_nonneg : 0 ≤ s.row.leaseUntil
  next_le : s.row.nextReconcileAt ≤ codingLeaseSentinel
  parked : s.row.leaseUntil = 0 → s.row.nextReconcileAt ≠ codingLeaseSentinel
  claims : ∀ lease ∈ s.claims, lease ≤ s.leases
  copies : ∀ copy ∈ s.copies, copy.Sound s
  updates : ∀ call ∈ s.updates, call.Sound s
  wakes : ∀ wake ∈ s.wakes, wake.version ≤ s.row.version ∧
    ∀ lease, wake.lease = some lease → lease ≤ s.leases
  ended : ∀ release ∈ s.releases, ∀ lease, release.lease = some lease →
    lease ≤ s.leases ∧ s.lease ≠ some lease
  /-- A wake-up under the current lease is what the row still says. -/
  kept : ∀ wake ∈ s.wakes, ∀ lease, s.lease = some lease → wake.lease = some lease →
    wake.Scheduled → s.Stands wake → s.row.nextReconcileAt ≤ millis wake.time
  released : ∀ release ∈ s.releases, ∀ wake ∈ s.wakes, ∀ lease,
    release.lease = some lease → wake.lease = some lease → wake.Scheduled → s.Stands wake →
    release.nextReconcileAt ≤ millis wake.time

theorem lease_eq_some (h : s.lease = some lease) : s.row.leaseUntil ≠ 0 ∧ s.leases = lease := by
  unfold State.lease at h
  split at h
  · cases h
  · rename_i hleased
    exact ⟨hleased, some.inj h⟩

theorem State.Consistent.created (session : Session) (now : Clock) :
    (State.created session now).Consistent where
  leaseUntil_nonneg := Int.le_refl 0
  next_le := Int.le_of_lt now.lt_sentinel
  parked := fun _ => Int.ne_of_lt now.lt_sentinel
  claims := by simp [State.created]
  copies := by simp [State.created]
  updates := by simp [State.created]
  wakes := by simp [State.created]
  ended := by simp [State.created]
  kept := by simp [State.created]
  released := by simp [State.created]

theorem State.Consistent.reading (hs : s.Consistent) : s.reading.Sound s where
  version_le := Nat.le_refl _
  leases_le := Nat.le_refl _
  lt_sentinel := scan_lt_sentinel hs.next_le
  current := fun _ _ _ => rfl
  of_version_le := fun wake hwake lease hlease _ => (hs.wakes wake hwake).2 lease hlease
  of_lease_lt := fun wake hwake _ _ _ => (hs.wakes wake hwake).1

theorem Copy.Sound.advance {copy : Copy} (h : copy.Sound s) (hst : s.Advances t) : copy.Sound t :=
  ⟨h.reading.advance hst, h.lease_le⟩

theorem Update.Sound.advance (h : call.Sound s) (hst : s.Advances t)
    (hcopies : ∀ copy ∈ s.copies, copy ∈ t.copies) : call.Sound t where
  reading := h.reading.advance hst
  schedule := h.schedule.imp_right fun ⟨copy, hmem, hcopy⟩ => ⟨copy, hcopies copy hmem, hcopy⟩

theorem State.Consistent.quiet (hs : s.Consistent) {candidates : List Candidate} {claims : List Nat}
    {copies : List Copy} (hclaims : ∀ lease ∈ claims, lease ≤ s.leases)
    (hcopies : ∀ copy ∈ copies, copy.Sound s) (hupdates : ∀ call ∈ updates, call.Sound s)
    (hkept : ∀ copy ∈ s.copies, copy ∈ copies) :
    { s with candidates, claims, copies, updates }.Consistent := by
  have hst : s.Advances { s with candidates, claims, copies, updates } :=
    ⟨Nat.le_refl _, Nat.le_refl _, fun _ _ _ => rfl, fun _ hwake => .inl hwake⟩
  exact
    { leaseUntil_nonneg := hs.leaseUntil_nonneg
      next_le := hs.next_le
      parked := hs.parked
      claims := hclaims
      copies := fun copy hmem => (hcopies copy hmem).advance hst
      updates := fun call hmem => (hupdates call hmem).advance hst hkept
      wakes := hs.wakes
      ended := hs.ended
      kept := hs.kept
      released := hs.released }

/-! ## Claims and releases -/

theorem State.Consistent.claim (hs : s.Consistent) (i : Nat) (call : Candidate) :
    (s.claim i call).Consistent := by
  unfold State.claim
  dsimp only
  split
  · exact hs.quiet hs.claims hs.copies hs.updates fun _ hmem => hmem
  · rename_i row hrow
    obtain ⟨hfree, rfl⟩ := claim_eq_some hrow
    have huntil : 0 < call.leaseUntil :=
      Int.lt_of_lt_of_le (Int.lt_of_le_of_lt hs.leaseUntil_nonneg hfree) call.now_le
    have hst : s.Advances
        { s with
          candidates := s.candidates.eraseIdx i
          row := { s.row with
            leaseOwner := call.owner, leaseUntil := call.leaseUntil
            nextReconcileAt := codingLeaseSentinel }
          leases := s.leases + 1
          claims := s.claims ++ [s.leases + 1] } :=
      ⟨Nat.le_refl _, Nat.le_succ _, fun _ h _ => absurd h (Nat.succ_ne_self _),
        fun _ hwake => .inl hwake⟩
    have hlease : ∀ lease, s.leases + 1 = lease → ¬ lease ≤ s.leases := by
      intro lease h
      omega
    exact
      { leaseUntil_nonneg := Int.le_of_lt huntil
        next_le := Int.le_refl _
        parked := fun h => absurd h (Int.ne_of_gt huntil)
        claims := forall_push (fun lease hmem => Nat.le_succ_of_le (hs.claims lease hmem))
          (Nat.le_refl _)
        copies := fun copy hmem => (hs.copies copy hmem).advance hst
        updates := fun call hmem => (hs.updates call hmem).advance hst fun _ h => h
        wakes := fun wake hmem => ⟨(hs.wakes wake hmem).1, fun lease h =>
          Nat.le_succ_of_le ((hs.wakes wake hmem).2 lease h)⟩
        ended := by
          intro release hmem lease h
          have hle := (hs.ended release hmem lease h).1
          refine ⟨Nat.le_succ_of_le hle, ?_⟩
          intro hnow
          obtain ⟨_, heq⟩ := lease_eq_some hnow
          exact hlease lease heq hle
        kept := by
          intro wake hmem lease hnow h
          obtain ⟨_, heq⟩ := lease_eq_some hnow
          exact absurd ((hs.wakes wake hmem).2 lease h) (hlease lease heq)
        released := hs.released }

theorem State.Consistent.release (hs : s.Consistent) (h : s.row.release owner next = some row) :
    ({ s with
      row, releases := s.releases ++ [⟨s.lease, row.nextReconcileAt⟩] } : State).Consistent := by
  obtain ⟨hversion, huntil, hle, hnext⟩ := release_eq_some h
  have hst : s.Advances
      { s with row, releases := s.releases ++ [⟨s.lease, row.nextReconcileAt⟩] } :=
    ⟨Nat.le_of_eq hversion.symm, Nat.le_refl _, fun h _ _ => absurd huntil h,
      fun _ hwake => .inl hwake⟩
  have hlt : row.nextReconcileAt < codingLeaseSentinel :=
    Int.lt_of_le_of_lt hnext next.lt_sentinel
  exact
    { leaseUntil_nonneg := Int.le_of_eq huntil.symm
      next_le := Int.le_of_lt hlt
      parked := fun _ => Int.ne_of_lt hlt
      claims := hs.claims
      copies := fun copy hmem => (hs.copies copy hmem).advance hst
      updates := fun call hmem => (hs.updates call hmem).advance hst fun _ h => h
      wakes := fun wake hmem =>
        ⟨Nat.le_trans (hs.wakes wake hmem).1 hst.version_le, (hs.wakes wake hmem).2⟩
      ended := by
        apply forall_push
        · intro release hmem lease h
          refine ⟨(hs.ended release hmem lease h).1, fun hnow => ?_⟩
          exact (lease_eq_some hnow).1 huntil
        · intro lease h
          refine ⟨Nat.le_of_eq (lease_eq_some h).2.symm, fun hnow => ?_⟩
          exact (lease_eq_some hnow).1 huntil
      kept := fun _ _ _ hnow => absurd huntil (lease_eq_some hnow).1
      released := by
        apply forall_push hs.released
        -- The row still had the time of the wake-up, and a release takes the
        -- earlier one.
        intro wake hmem lease hnow hwake hscheduled hstands
        exact Int.le_trans hle (hs.kept wake hmem lease hnow hwake hscheduled hstands) }

/-! ## Updates -/

/-- What was read at the version of the row, after a wake-up under the current
lease, was read under that lease. -/
theorem Reading.Sound.leases_eq {reading : Reading} (h : reading.Sound s) (hs : s.Consistent)
    (hversion : reading.session.version = s.row.version) (hmem : wake ∈ s.wakes)
    (hnow : s.lease = some lease) (hwake : wake.lease = some lease) :
    reading.leases = s.leases := by
  have hread : lease ≤ reading.leases :=
    h.of_version_le wake hmem lease hwake (hversion ▸ (hs.wakes wake hmem).1)
  rw [← (lease_eq_some hnow).2] at hread
  exact Nat.le_antisymm h.leases_le hread

theorem Reading.Sound.millis_eq {reading : Reading} (h : reading.Sound s)
    (hleased : s.row.leaseUntil ≠ 0) (hleases : reading.leases = s.leases)
    (hversion : reading.session.version = s.row.version)
    (hne : reading.session.nextReconcileAt ≠ 0) :
    millis reading.session.nextReconcileAt = s.row.nextReconcileAt := by
  have hcurrent := h.current hleased hleases hversion
  rw [hcurrent] at hne ⊢
  exact millis_scan hne

theorem Update.Sound.lt_sentinel (h : call.Sound s) (hs : s.Consistent) :
    millis call.schedule < codingLeaseSentinel := by
  rcases h.schedule with heq | ⟨copy, hmem, _, heq⟩
  · rw [heq]
    exact h.reading.lt_sentinel
  · rw [← heq]
    exact (hs.copies copy hmem).reading.lt_sentinel

/-- After a wake-up under the current lease, an update without one leaves the next
time as it is. -/
theorem Update.Sound.carries (h : call.Sound s) (hs : s.Consistent)
    (hversion : s.row.version = call.reading.session.version) (hmem : wake ∈ s.wakes)
    (hnow : s.lease = some lease) (hwake : wake.lease = some lease)
    (hread : call.schedule ≠ call.reading.session.nextReconcileAt) (hne : call.schedule ≠ 0) :
    millis call.schedule = s.row.nextReconcileAt := by
  rcases h.schedule with heq | ⟨copy, hcopy, hcopied, heq⟩
  · exact absurd heq hread
  · have hsound := (hs.copies copy hcopy).reading
    have hcurrent : copy.reading.session.version = s.row.version := hcopied.trans hversion.symm
    have hleases := hsound.leases_eq hs hcurrent hmem hnow hwake
    rw [← heq] at hne ⊢
    exact hsound.millis_eq (lease_eq_some hnow).1 hleases hcurrent hne

theorem State.Consistent.written (hs : s.Consistent) {wakes : List Wake}
    (hversion : row.version = s.row.version + 1) (huntil : row.leaseUntil = s.row.leaseUntil)
    (hnext : row.nextReconcileAt < codingLeaseSentinel ∨
      row.nextReconcileAt = s.row.nextReconcileAt) (hupdates : ∀ call ∈ updates, call ∈ s.updates)
    (hwakes : ∀ wake ∈ wakes, wake ∈ s.wakes ∨
      (wake.version = row.version ∧ wake.lease = s.lease)) (hold : ∀ wake ∈ s.wakes, wake ∈ wakes)
    (hkept : ∀ wake ∈ wakes, ∀ lease, s.lease = some lease → wake.lease = some lease →
      wake.Scheduled → ({ s with row, updates, wakes } : State).Stands wake →
      row.nextReconcileAt ≤ millis wake.time) :
    ({ s with row, updates, wakes } : State).Consistent := by
  have hlease : ({ s with row, updates, wakes } : State).lease = s.lease := by
    simp [State.lease, huntil]
  have hst : s.Advances { s with row, updates, wakes } := by
    refine ⟨by rw [hversion]; exact Nat.le_succ _, Nat.le_refl _, ?_, ?_⟩
    · intro _ _ h
      rw [hversion] at h
      exact absurd h (Nat.succ_ne_self _)
    · intro wake hmem
      refine (hwakes wake hmem).imp_right fun ⟨hnew, hleased⟩ => ⟨by omega, fun lease h => ?_⟩
      rw [hleased] at h
      exact Nat.le_of_eq (lease_eq_some h).2
  have hstands : ∀ wake, ({ s with row, updates, wakes } : State).Stands wake → s.Stands wake :=
    fun wake h later hmem => h later (hold later hmem)
  exact
    { leaseUntil_nonneg := huntil ▸ hs.leaseUntil_nonneg
      next_le := hnext.elim Int.le_of_lt fun h => h ▸ hs.next_le
      parked := fun h => hnext.elim Int.ne_of_lt fun heq =>
        heq ▸ hs.parked (huntil ▸ h)
      claims := hs.claims
      copies := fun copy hmem => (hs.copies copy hmem).advance hst
      updates := fun call hmem => (hs.updates call (hupdates call hmem)).advance hst fun _ h => h
      wakes := by
        intro wake hmem
        rcases hwakes wake hmem with hmem | ⟨hnew, hleased⟩
        · exact ⟨Nat.le_trans (hs.wakes wake hmem).1 hst.version_le, (hs.wakes wake hmem).2⟩
        · refine ⟨Nat.le_of_eq hnew, fun lease h => ?_⟩
          rw [hleased] at h
          exact Nat.le_of_eq (lease_eq_some h).2.symm
      ended := by
        intro release hmem lease h
        rw [hlease]
        exact hs.ended release hmem lease h
      kept := by
        intro wake hmem lease hnow
        rw [hlease] at hnow
        exact hkept wake hmem lease hnow
      released := by
        intro release hrelease wake hmem lease hreleased hwake hscheduled hstand
        rcases hwakes wake hmem with hmem | ⟨_, hleased⟩
        · exact hs.released release hrelease wake hmem lease hreleased hwake hscheduled
            (hstands wake hstand)
        · rw [hleased] at hwake
          exact absurd hwake (hs.ended release hrelease lease hreleased).2 }

theorem schedules_iff {before mutated : Session} : schedules before mutated ↔
      mutated.nextReconcileAt ≠ before.nextReconcileAt ∧ mutated.nextReconcileAt ≠ 0 := by
  simp [schedules]

section Store

variable {i : Nat} {call : Update} {document : Session}

theorem State.Consistent.store_none (hs : s.Consistent) (hcall : call ∈ s.updates)
    (h : s.row.update call.reading.session (call.mutated document none) = some row) :
    ({ s with row, updates := s.updates.eraseIdx i } : State).Consistent := by
  obtain ⟨hversion, hnew, huntil, hnext⟩ := update_eq_some h
  have hsound := hs.updates call hcall
  refine hs.written hnew huntil ?_ (fun _ => mem_of_mem_eraseIdx) (fun _ => .inl)
    (fun _ hmem => hmem) ?_
  · rw [hnext]
    split
    · exact .inl (hsound.lt_sentinel hs)
    · exact .inr rfl
  · intro wake hmem lease hnow hwake hscheduled hstands
    have hkept := hs.kept wake hmem lease hnow hwake hscheduled hstands
    rw [hnext]
    split
    · rename_i hschedules
      obtain ⟨hread, hne⟩ := schedules_iff.1 hschedules
      change millis call.schedule ≤ _
      rw [hsound.carries hs hversion hmem hnow hwake hread hne]
      exact hkept
    · exact hkept

/-- A wake-up under a lease leaves its time in the row: it is written, or the row
has it already. -/
theorem Update.Sound.wakes {wake : Clock} (hsound : call.Sound s)
    (h : s.row.update call.reading.session (call.mutated document (some wake)) = some row)
    (hscheduled : (Wake.mk s.lease row.version wake.time call.reading).Scheduled) :
    row.nextReconcileAt = millis wake.time := by
  obtain ⟨hversion, _, _, hnext⟩ := update_eq_some h
  have hne : wake.time ≠ 0 := Int.ne_of_gt wake.pos
  rw [hnext]
  split
  · rfl
  · rename_i hschedules
    have hread : wake.time = call.reading.session.nextReconcileAt := by
      by_contra hread
      exact hschedules (schedules_iff.2 ⟨hread, hne⟩)
    rcases hscheduled with hother | hsince
    · exact absurd hread hother
    · obtain ⟨hleased, hleases⟩ := lease_eq_some hsince
      rw [hread] at hne ⊢
      exact (hsound.reading.millis_eq hleased hleases.symm hversion.symm hne).symm

theorem State.Consistent.store_some (hs : s.Consistent) (hcall : call ∈ s.updates) {wake : Clock}
    (h : s.row.update call.reading.session (call.mutated document (some wake)) = some row) :
    ({ s with
      row
      updates := s.updates.eraseIdx i
      wakes := s.wakes ++ [⟨s.lease, row.version, wake.time, call.reading⟩] } :
        State).Consistent := by
  obtain ⟨hversion, hnew, huntil, hnext⟩ := update_eq_some h
  have hsound := hs.updates call hcall
  refine hs.written hnew huntil ?_ (fun _ => mem_of_mem_eraseIdx)
    (forall_push (fun _ => .inl) (.inr ⟨rfl, rfl⟩)) (fun _ => mem_append_left _) ?_
  · rw [hnext]
    split
    · exact .inl wake.lt_sentinel
    · exact .inr rfl
  · apply forall_push
    · -- A wake-up before this one: it was seen by the update, so this one is
      -- written, and it is for no later time.
      intro old hmem lease hnow hold _ hstands
      have hleases := hsound.reading.leases_eq hs hversion.symm hmem hnow hold
      have hsince : s.lease = some call.reading.leases := by
        rw [hnow, hleases, (lease_eq_some hnow).2]
      rw [hsound.wakes h (.inr hsince)]
      refine Int.ediv_le_ediv (by decide)
        (hstands _ (mem_append_right _ (mem_singleton.2 rfl)) ?_ ?_)
      · exact hnow.trans hold.symm
      · change old.version < row.version
        have hle := (hs.wakes old hmem).1
        omega
    · intro _ _ _ hscheduled _
      exact Int.le_of_eq (hsound.wakes h hscheduled)

theorem State.Consistent.store (hs : s.Consistent) (hcall : call ∈ s.updates)
    (wake : Option Clock) : (s.store i call document wake).Consistent := by
  unfold State.store
  dsimp only
  split
  · exact hs.quiet hs.claims hs.copies
      (fun call hmem => hs.updates call (mem_of_mem_eraseIdx hmem)) fun _ hmem => hmem
  · rename_i row hrow
    cases wake with
    | none => exact hs.store_none hcall hrow
    | some wake => exact hs.store_some hcall hrow

end Store

theorem State.Consistent.step {a : Label} (hs : s.Consistent) (h : s.step a = some t) :
    t.Consistent := by
  have hreading : ∀ lease, (∀ n, lease = some n → n ≤ s.leases) →
      (⟨s.reading, lease⟩ : Copy).Sound s := fun lease hle => ⟨hs.reading, hle⟩
  cases a with
  | select owner now lease =>
    simp only [State.step, State.select] at h
    split at h
    · split at h
      · cases h
        exact hs.quiet hs.claims hs.copies hs.updates fun _ hmem => hmem
      · cases h
    · cases h
  | claim i =>
    obtain ⟨call, _, rfl⟩ := map_eq_some_iff.1 h
    exact hs.claim i call
  | fetch i =>
    obtain ⟨lease, hlease, rfl⟩ := map_eq_some_iff.1 h
    have hle : lease ≤ s.leases := hs.claims lease (mem_of_getElem? hlease)
    refine hs.quiet (fun n hmem => hs.claims n (mem_of_mem_eraseIdx hmem))
      (forall_push hs.copies (hreading _ ?_)) hs.updates fun _ => mem_append_left _
    intro n hn
    cases hn
    exact hle
  | read =>
    cases h
    exact hs.quiet hs.claims (forall_push hs.copies (hreading none (by simp))) hs.updates
      fun _ => mem_append_left _
  | load =>
    cases h
    exact hs.quiet hs.claims hs.copies (forall_push hs.updates ⟨hs.reading, .inl rfl⟩)
      fun _ hmem => hmem
  | commit i =>
    obtain ⟨copy, hcopy, h⟩ := bind_eq_some_iff.1 h
    split at h
    · rename_i hversion
      cases h
      exact hs.quiet hs.claims hs.copies
        (forall_push hs.updates
          ⟨hs.reading, .inr ⟨copy, mem_of_getElem? hcopy, hversion, rfl⟩⟩)
        fun _ hmem => hmem
    · cases h
  | store i document wake =>
    obtain ⟨call, hcall, rfl⟩ := map_eq_some_iff.1 h
    exact hs.store (mem_of_getElem? hcall) wake
  | release owner next =>
    obtain ⟨row, hrow, rfl⟩ := map_eq_some_iff.1 h
    exact hs.release hrow

theorem State.Consistent.wakesKept (hs : s.Consistent) : s.WakesKept where
  parked := fun _ => hs.parked
  released := hs.released
  taken := by
    intro wake hwake copy hcopy lease holder hlease hholder hlt
    have hsound := hs.copies copy hcopy
    have hle := hsound.lease_le holder hholder
    exact hsound.reading.of_lease_lt wake hwake lease hlease (Nat.lt_of_lt_of_le hlt hle)

/-- **No wake-up is lost to a lease**, in every interleaving of calls: a session that is not
leased is not parked, the release of a lease leaves a next time no later than the wake-ups under
it that no later one replaced, and whoever takes a lease over has read the session after them.
-/
theorem wakesKept_of_reaches (session : Session) (now : Clock)
    (hrun : Reaches State.step Unrestricted (State.created session now) t) : t.WakesKept :=
  (hrun.invariant (P := State.Consistent) (fun _ _ _ hs _ h => hs.step h)
    (State.Consistent.created session now)).wakesKept

/-- The clock of the runs below: it ticks once a second, from one second on. -/
def Clock.tick (n : Fin 3600) : Clock where
  time := ((n.val : Int) + 1) * 1000000000
  pos := Int.mul_pos (Int.lt_add_one_of_le (Int.natCast_nonneg _)) (by decide)
  lt_sentinel := by
    have hlt := n.isLt
    unfold millis codingLeaseSentinel
    omega

/-- A lease that expires and is taken over, with a wake-up under each holder. -/
theorem wakesKept_after_takeover :
    ∃ t, Reaches State.step Unrestricted
        (State.created { id := "cs-1", workspaceKey := "w" } (.tick 1)) t ∧
      (t.leases = 2 ∧ t.wakes.map Wake.lease = [some 1, some 2] ∧
        t.releases.map Release.lease = [some 2] ∧ t.copies.length = 2) ∧ t.WakesKept := by
  refine exists_reaches_and
    [.select "a" (.tick 2) 30000000000, .claim 0, .fetch 0,
      .load, .store 0 { id := "cs-1", workspaceKey := "w" } (some (.tick 3)),
      .select "b" (.tick 40) 30000000000, .claim 0, .fetch 0,
      .load, .store 0 { id := "cs-1", workspaceKey := "w" } (some (.tick 41)),
      .release "b" (.tick 50)] _ (by decide) fun t hreach _ => ?_
  exact wakesKept_of_reaches _ _ hreach

/-- **A wake-up that a later one replaces, and one that is not written.** Two wake-ups under one
lease leave the later time. An update that read the time it wakes for does not write it, and a
claim in between has parked it. -/
theorem wake_replaced_and_wake_unwritten :
    (∃ t, Reaches State.step Unrestricted
        (State.created { id := "cs-1", workspaceKey := "w" } (.tick 1)) t ∧
      t.leases = 1 ∧ ∃ wake ∈ t.wakes, ∃ release ∈ t.releases, wake.Scheduled ∧
        wake.lease = some 1 ∧ release.lease = some 1 ∧
        millis wake.time < release.nextReconcileAt) ∧
    (∃ t, Reaches State.step Unrestricted
        (State.created { id := "cs-1", workspaceKey := "w" } (.tick 1)) t ∧
      t.leases = 1 ∧ ∃ wake ∈ t.wakes, ∃ release ∈ t.releases, t.Stands wake ∧
        wake.lease = some 1 ∧ release.lease = some 1 ∧
        millis wake.time < release.nextReconcileAt) := by
  constructor
  · exact exists_reaches
      [.select "a" (.tick 2) 30000000000, .claim 0, .fetch 0,
        .load, .store 0 { id := "cs-1", workspaceKey := "w" } (some (.tick 3)),
        .load, .store 0 { id := "cs-1", workspaceKey := "w" } (some (.tick 4)),
        .release "a" (.tick 10)] _ (by decide)
  · -- The pass decides before the wake-up commits, and changes nothing.
    exact exists_reaches
      [.load, .select "a" (.tick 1) 30000000000, .claim 0, .fetch 0, .commit 0,
        .store 1 { id := "cs-1", workspaceKey := "w", version := 1 } none,
        .store 0 { id := "cs-1", workspaceKey := "w", stopRequested := true }
          (some (.tick 1)),
        .release "a" (.tick 10)] _ (by decide)

end Flow.Ports.Leases
