import Flow.Ports.MetadataMergeCases
import Flow.Verified.Run

/-!
# Writing a metadata record from a copy

A writer read a metadata record from its server's copy as `base`, changed it to
`ours`, and now holds the lock of the record's row.  `rebaseMetadataRecordWrite`
decides what it writes: ours when the row is still base, ours' change merged onto the
row when another write changed it, nothing when the record is gone, and a conflict
otherwise.

A record is the map of its fields.  `load`, a parameter, is the load normalization a
stored record goes through before a writer sees it: it fills fields in, and what a
field means to a writer is what `load` presents.  Display-data equality of records is
equality of their fields.
-/

namespace Flow.Ports.MetadataRecord

open Flow.Ports.MetadataMerge Flow.Verified Keyed List

abbrev Record := Fields

def recordEqual (a b : Record) : Bool :=
  (a.keys ++ b.keys).all fun name => a.lookup name == b.lookup name

theorem recordEqual_iff {a b : Record} :
    recordEqual a b ↔ ∀ name, a.lookup name = b.lookup name := by
  unfold recordEqual
  rw [all_eq_true]
  constructor
  · intro h name
    by_cases hname : name ∈ a.keys ++ b.keys
    · exact eq_of_beq (h name hname)
    · rw [mem_append, not_or] at hname
      rw [AList.lookup_eq_none.2 hname.1, AList.lookup_eq_none.2 hname.2]
  · intro h name _
    rw [h name]
    exact beq_self_eq_true _

/-! ## Merging records -/

/-- Set a field; a nil value deletes it. -/
def setMember : Option Json → KeyChange Json
  | some value => .set value
  | none => .delete

@[simp] theorem value_setMember (value old : Option Json) :
    (setMember value).value old = value := by
  cases value <;> rfl

/-- Whether ours' `updatedAt` is the later one, when both are times. -/
def laterUpdate (name : String) (ours loaded : Option Json) : Option Bool :=
  if name = "updatedAt" then do
    let ourTime ← unmarshalTime ours
    let theirTime ← unmarshalTime loaded
    some (decide (theirTime < ourTime))
  else none

/-- What merging does to one field, and whether it is a conflict; `loaded` is
theirs as a load presents it. -/
def mergeField (name : String) (base ours loaded : Option Json) :
    KeyChange Json × Bool :=
  if jsonEqual base ours then (.keep, false)
  else if jsonEqual loaded base then (setMember ours, false)
  else
    match laterUpdate name ours loaded with
    | some true => (setMember ours, false)
    | some false => (.keep, false)
    | none =>
      match mergeMetadataMember name base ours loaded with
      | some value => (setMember value, false)
      | none => (setMember ours, true)

/-- Apply ours' change of a record to theirs, the record as stored. -/
def mergeMetadataRecord (base ours theirs loaded : Record) : Record × Bool :=
  let names := base.keys ++ ours.keys
  let field := fun name =>
    mergeField name (base.lookup name) (ours.lookup name) (loaded.lookup name)
  (names.foldl (fun merged name => (field name).1.apply name merged) theirs,
    names.any fun name => (field name).2)

/-- A writer's change merged onto a record as stored. -/
structure StoredMerge where
  merged : Record
  unchanged : Bool
  conflict : Bool

def mergeWithStoredRecord (load : Record → Record) (base ours row : Record) :
    StoredMerge :=
  let loaded := load row
  if recordEqual loaded base then
    { merged := ours, unchanged := true, conflict := false }
  else
    let (merged, conflict) := mergeMetadataRecord base ours row loaded
    { merged := merged, unchanged := false, conflict := conflict }

inductive Rebase where
  | write (record : Record)
  | skip
  | conflict

def rebaseMetadataRecordWrite (load : Record → Record) (base : Option Record)
    (ours : Record) (row : Option Record) : Rebase :=
  match row, base with
  | none, some _ => .skip
  | none, none => .write ours
  | some row, none =>
    if recordEqual row ours then .write ours
    else
      -- created on both sides: merge the two records from nothing
      let result := mergeWithStoredRecord load ∅ ours row
      if result.conflict then .conflict else .write result.merged
  | some row, some base =>
    if recordEqual row base then .write ours
    else
      let result := mergeWithStoredRecord load base ours row
      if result.conflict then .conflict else .write result.merged

/-! ## What a write holds, field by field -/

/-- The loop over the names is the fallible one that never fails. -/
private theorem foldl_apply_eq_updateKeys (change : String → KeyChange Json) :
    ∀ (names : List String) (record : Record),
      updateKeys (fun name => some (change name)) names record =
        some (names.foldl (fun merged name => (change name).apply name merged) record) := by
  intro names
  induction names with
  | nil =>
    intro record
    rfl
  | cons name names ih =>
    intro record
    exact ih _

/-- A merged record without conflict holds at every field what the field's
merge leaves there. -/
theorem mergeMetadataRecord_field {base ours theirs loaded merged : Record}
    (h : mergeMetadataRecord base ours theirs loaded = (merged, false)) (name : String) :
    (mergeField name (base.lookup name) (ours.lookup name) (loaded.lookup name)).2 = false ∧
      merged.lookup name = (mergeField name (base.lookup name) (ours.lookup name)
          (loaded.lookup name)).1.value (theirs.lookup name) := by
  unfold mergeMetadataRecord at h
  simp only [Prod.mk.injEq] at h
  obtain ⟨hmerged, hconflict⟩ := h
  have hloop := foldl_apply_eq_updateKeys (fun name => (mergeField name
    (base.lookup name) (ours.lookup name) (loaded.lookup name)).1)
    (base.keys ++ ours.keys) theirs
  rw [hmerged] at hloop
  by_cases hname : name ∈ base.keys ++ ours.keys
  · rw [any_eq_false] at hconflict
    refine ⟨by simpa using hconflict name hname, ?_⟩
    exact lookup_updateKeys_of_mem hloop hname rfl
  · have hlookup := lookup_updateKeys_of_not_mem hloop hname
    rw [mem_append, not_or] at hname
    rw [AList.lookup_eq_none.2 hname.1, AList.lookup_eq_none.2 hname.2, hlookup]
    exact ⟨rfl, rfl⟩

/-- The cases in which a writer writes `written` over `row`. -/
inductive Writes (load : Record → Record) :
    Option Record → Record → Option Record → Record → Prop
  | created {ours : Record} : Writes load none ours none ours
  | found {ours row : Record} : recordEqual row ours = true →
      Writes load none ours (some row) ours
  | current {base ours row : Record} : recordEqual row base = true →
      Writes load (some base) ours (some row) ours
  | presented {base : Option Record} {ours row : Record} :
      (base = none → recordEqual row ours = false) →
      recordEqual (load row) (base.getD ∅) = true →
      Writes load base ours (some row) ours
  | merged {base : Option Record} {ours row written : Record} :
      (base = none → recordEqual row ours = false) →
      (∀ name,
        (mergeField name ((base.getD ∅).lookup name) (ours.lookup name)
          ((load row).lookup name)).2 = false ∧
        written.lookup name =
          (mergeField name ((base.getD ∅).lookup name) (ours.lookup name)
            ((load row).lookup name)).1.value (row.lookup name)) →
      Writes load base ours (some row) written

private theorem writes_of_merge {load : Record → Record} {base : Option Record}
    {ours row written : Record} (hfound : base = none → recordEqual row ours = false)
    (h : (if (mergeWithStoredRecord load (base.getD ∅) ours row).conflict
      then Rebase.conflict
      else .write (mergeWithStoredRecord load (base.getD ∅) ours row).merged) =
        .write written) : Writes load base ours (some row) written := by
  unfold mergeWithStoredRecord at h
  by_cases hloaded : recordEqual (load row) (base.getD ∅) = true
  · simp only [hloaded, if_true, Bool.false_eq_true, if_false, Rebase.write.injEq] at h
    subst h
    exact .presented hfound hloaded
  · simp only [hloaded] at h
    cases hmerge : mergeMetadataRecord (base.getD ∅) ours row (load row) with
    | mk merged conflict =>
      simp only [hmerge] at h
      cases conflict with
      | true => simp at h
      | false =>
        simp only [Bool.false_eq_true, if_false, Rebase.write.injEq] at h
        subst h
        exact .merged hfound (mergeMetadataRecord_field hmerge)

/-- **The cases of a write.** -/
theorem writes_of_rebase {load : Record → Record} {base row : Option Record} {ours written : Record}
    (h : rebaseMetadataRecordWrite load base ours row = .write written) :
    Writes load base ours row written := by
  unfold rebaseMetadataRecordWrite at h
  cases row with
  | none =>
    cases base with
    | none =>
      cases h
      exact .created
    | some base => cases h
  | some row =>
    cases base with
    | none =>
      simp only at h
      by_cases hfound : recordEqual row ours = true
      · rw [if_pos hfound, Rebase.write.injEq] at h
        subst h
        exact .found hfound
      · rw [if_neg hfound] at h
        exact writes_of_merge (fun _ => Bool.not_eq_true _ ▸ hfound) h
    | some base =>
      simp only at h
      by_cases hcurrent : recordEqual row base = true
      · rw [if_pos hcurrent, Rebase.write.injEq] at h
        subst h
        exact .current hcurrent
      · rw [if_neg hcurrent] at h
        exact writes_of_merge (fun hnone : some base = none => by cases hnone) h

end Flow.Ports.MetadataRecord
