import Flow.Ports.MetadataMerge

/-!
# What a successful merge says, key by key and entry by entry

The loops of `mergeMetadataObjects` and `mergeMetadataLists` are read off
here once.  An object merge succeeds exactly when the switch succeeds at
every key, and then holds at each key what the switch leaves there
(`objectsVia_eq_some_iff`).  A list merge succeeds exactly when every
identity does, and its items are the identities' outcomes in order
(`listsVia_eq_some_iff`).  `valuesVia_of_changed` is the dispatch on shapes
for a value both sides changed.
-/

namespace Flow.Ports.MetadataMerge

open List Flow.Verified Keyed
open Option (isSome_iff_exists bind_eq_bind bind_eq_some_iff)

/-! ## Kinds -/

variable {base ours theirs v : Option Json} {values : Merge}

theorem jsonKind_eq_absent : jsonKind v = .absent ↔ emptyMember v := by
  unfold jsonKind
  split
  · simp_all
  · split <;> simp_all

/-- A value that merges with a container of the given kind. -/
def FitsKind (kind : JsonKind) (v : Option Json) : Prop :=
  jsonKind v = kind ∨ jsonKind v = .absent

instance (kind : JsonKind) (v : Option Json) : Decidable (FitsKind kind v) := by
  unfold FitsKind
  infer_instance

/-- Three values that merge as one container. -/
def AllFit (kind : JsonKind) (base ours theirs : Option Json) : Prop :=
  FitsKind kind base ∧ FitsKind kind ours ∧ FitsKind kind theirs

instance (kind : JsonKind) (base ours theirs : Option Json) :
    Decidable (AllFit kind base ours theirs) := by
  unfold AllFit
  infer_instance

private theorem flags_object {o t b : JsonKind} (h : ¬(o = .absent ∧ b = .absent)) :
    (o.flag ||| t.flag ||| b.flag = 2 ∨ o.flag ||| t.flag ||| b.flag = 2 ||| 1) ↔
      (b = .object ∨ b = .absent) ∧ (o = .object ∨ o = .absent) ∧ (t = .object ∨ t = .absent) := by
  cases o <;> cases t <;> cases b <;> simp_all [JsonKind.flag]

private theorem flags_array {o t b : JsonKind} (h : ¬(o = .absent ∧ b = .absent)) :
    (o.flag ||| t.flag ||| b.flag = 4 ∨ o.flag ||| t.flag ||| b.flag = 4 ||| 1) ↔
      (b = .array ∨ b = .absent) ∧ (o = .array ∨ o = .absent) ∧ (t = .array ∨ t = .absent) := by
  cases o <;> cases t <;> cases b <;> simp_all [JsonKind.flag]

theorem valuesVia_of_changed (values : Merge) (hours : jsonEqual ours base = false)
    (htheirs : jsonEqual theirs base = false) :
    valuesVia values base ours theirs =
      if AllFit .object base ours theirs then
        (objectsVia values base ours theirs).map some
      else if AllFit .array base ours theirs then
        (listsVia values base ours theirs).map some
      else if jsonEqual theirs ours ∧ isNumber ours = false then some ours
      else none := by
  have hshape : ¬(jsonKind ours = .absent ∧ jsonKind base = .absent) := by
    rintro ⟨ho, hb⟩
    rw [jsonKind_eq_absent] at ho hb
    rw [jsonEqual_iff.2 (Or.inr ⟨ho, hb⟩)] at hours
    cases hours
  unfold valuesVia
  rw [if_neg (by simp [hours]), if_neg (by simp [htheirs])]
  simp only [flags_object hshape, flags_array hshape]
  refine ite_congr rfl (fun _ => rfl) fun _ => ite_congr rfl (fun _ => rfl) fun _ => ?_
  cases jsonEqual theirs ours <;> cases isNumber ours <;> rfl

theorem valuesVia_of_ours_unchanged (values : Merge) (hours : jsonEqual ours base) :
    valuesVia values base ours theirs = some theirs := by
  unfold valuesVia
  rw [if_pos hours]

theorem valuesVia_of_theirs_unchanged (values : Merge) (hours : jsonEqual ours base = false)
    (htheirs : jsonEqual theirs base) : valuesVia values base ours theirs = some ours := by
  unfold valuesVia
  rw [if_neg (by simp [hours]), if_pos htheirs]

theorem emptyMember_cases (h : emptyMember v) :
    emptyJSONValue v ∨ v = some (.array []) ∨ v = some (.object []) := by
  unfold emptyMember at h
  rw [Bool.or_eq_true, Bool.or_eq_true, beq_iff_eq, beq_iff_eq, or_assoc] at h
  exact h

theorem indexOf_of_empty {idx : Index} (hempty : emptyMember v) (h : indexOf v = some idx) :
    idx = Index.empty := by
  unfold indexOf unmarshalItems at h
  simp only [bind_eq_bind, bind_eq_some_iff] at h
  obtain ⟨items, hitems, hidx⟩ := h
  have hnil : items = [] := by
    split at hitems
    · rcases emptyMember_cases hempty with hvalue | harray | hobject
      · cases hvalue
      · cases harray
        cases hitems
        rfl
      · cases hobject
    · rw [Option.ite_none_right_eq_some, Option.some.injEq] at hitems
      exact hitems.2.symm
  subst hnil
  exact (Option.some.inj hidx).symm

theorem not_allFit_object (hchanged : jsonEqual ours base = false)
    (harray : AllFit .array base ours theirs) : ¬AllFit .object base ours theirs := by
  rintro ⟨hb, ho, _⟩
  obtain ⟨hb', ho', _⟩ := harray
  have hbase : jsonKind base = .absent := by
    rcases hb with hb | hb
    · rcases hb' with hb' | hb' <;> rw [hb] at hb' <;> cases hb'
    · exact hb
  have hours : jsonKind ours = .absent := by
    rcases ho with ho | ho
    · rcases ho' with ho' | ho' <;> rw [ho] at ho' <;> cases ho'
    · exact ho
  rw [jsonKind_eq_absent] at hbase hours
  rw [jsonEqual_iff.2 (Or.inr ⟨hours, hbase⟩)] at hchanged
  cases hchanged

/-! ## Objects -/

/-- What the object merge does to a key: nothing when neither base nor ours
has it. -/
def keyChange (values : Merge) (key : String) (base ours theirs : Option Json) :
    Option (KeyChange Json) :=
  if base = none ∧ ours = none then some .keep else keyVia values key base ours theirs

section KeyChange

variable {key : String} {b o : Json}

/-- A member is merged as a value, or by its name as a time or a counter. -/
theorem memberVia_cases (values : Merge) (key : String) (base ours theirs : Option Json) :
    memberVia values key base ours theirs = values base ours theirs ∨
      (key = "updatedAt" ∧ ∃ v, laterTime ours theirs = some v ∧
        memberVia values key base ours theirs = some v) ∨
      (key ≠ "updatedAt" ∧ key ∈ additiveCounters ∧ ∃ v, addDelta base ours theirs = some v ∧
        memberVia values key base ours theirs = some (some v)) := by
  fun_cases memberVia values key base ours theirs with
  | case1 hkey v hlater => exact .inr (.inl ⟨hkey, v, hlater, rfl⟩)
  | case3 hkey hcounter v hdelta => exact .inr (.inr ⟨hkey, hcounter, v, hdelta, rfl⟩)
  | case2 | case4 | case5 => exact .inl rfl

theorem memberVia_counter {v : Json} (hkey : key ∈ additiveCounters)
    (hdelta : addDelta base ours theirs = some v) :
    memberVia values key base ours theirs = some (some v) := by
  have htime : key ≠ "updatedAt" := by
    rintro rfl
    exact absurd hkey (by decide)
  unfold memberVia
  rw [if_neg htime, if_pos hkey, hdelta]

@[simp] theorem keyChange_none : keyChange values key none none theirs = some .keep := rfl

theorem keyChange_of_unchanged (h : jsonEqual (some b) ours) :
    keyChange values key (some b) ours theirs = some .keep := by
  simp [keyChange, keyVia, h]

theorem keyChange_of_removed (h : jsonEqual (some b) none = false) :
    keyChange values key (some b) none theirs =
      if jsonKind (some b) = .array ∧ jsonKind theirs = .array then
        (listsVia values (some b) none theirs).map .set
      else if theirs.isSome && theirs != some b then none else some .delete := by
  simp [keyChange, keyVia, h]

theorem keyChange_of_dropped (h : jsonEqual (some b) (some o) = false) :
    keyChange values key (some b) (some o) none =
      if jsonKind (some b) = .array ∧ jsonKind (some o) = .array then
        (listsVia values (some b) (some o) none).map .set
      else none := by
  simp [keyChange, keyVia, h]

theorem keyChange_of_changed (h : base.isSome → jsonEqual base (some o) = false)
    (htheirs : base = none ∨ theirs.isSome) :
    keyChange values key base (some o) theirs =
      (memberVia values key base (some o) theirs).map fun v => .set (v.getD .null) := by
  cases base with
  | none => simp [keyChange, keyVia]
  | some b =>
    rcases htheirs with hnone | htheirs
    · cases hnone
    · simp [keyChange, keyVia, h rfl, Option.isSome_iff_ne_none.1 htheirs]

theorem keyChange_absent {c : KeyChange Json}
    (h : keyChange values key base none none = some c) : c.value none = none := by
  cases base with
  | none =>
    cases h
    rfl
  | some b =>
    by_cases hkeep : jsonEqual (some b) none = true
    · rw [keyChange_of_unchanged hkeep] at h
      cases h
      rfl
    · rw [keyChange_of_removed (Bool.not_eq_true _ ▸ hkeep), if_neg (by simp [jsonKind])] at h
      cases h
      rfl

end KeyChange

def field (value : Option Json) (key : String) : Option Json :=
  match unmarshalFields value with
  | some fields => fields.lookup key
  | none => none

theorem field_eq {value : Option Json} {fields : Fields}
    (h : unmarshalFields value = some fields) (key : String) :
    field value key = fields.lookup key := by
  unfold field
  rw [h]

@[simp] theorem field_marshalMap (fields : Fields) (key : String) :
    field (some (marshalMap fields)) key = fields.lookup key := by
  exact lookup_unmarshalMap_sortedMembers key fields

/-- **The object merge, key by key.** -/
theorem objectsVia_eq_some {r : Json} (h : objectsVia values base ours theirs = some r) :
    ∃ B O T, unmarshalFields base = some B ∧ unmarshalFields ours = some O ∧
      unmarshalFields theirs = some T ∧ (∃ fields, r = marshalMap fields) ∧
      ∀ key, ∃ c, keyChange values key (B.lookup key) (O.lookup key) (T.lookup key) =
          some c ∧ field (some r) key = c.value (T.lookup key) := by
  simp only [objectsVia, bind_eq_bind, bind_eq_some_iff,
    Option.some.injEq] at h
  obtain ⟨B, hB, O, hO, T, hT, merged, hmerged, rfl⟩ := h
  refine ⟨B, O, T, hB, hO, hT, ⟨merged, rfl⟩, fun key => ?_⟩
  rw [field_marshalMap]
  unfold keyChange
  by_cases hnone : B.lookup key = none ∧ O.lookup key = none
  · refine ⟨.keep, if_pos hnone, ?_⟩
    have hkey : key ∉ B.keys ++ O.keys := by
      rw [mem_append, not_or]
      exact ⟨AList.lookup_eq_none.1 hnone.1, AList.lookup_eq_none.1 hnone.2⟩
    exact lookup_updateKeys_of_not_mem hmerged hkey
  · rw [if_neg hnone]
    have hkey : key ∈ B.keys ++ O.keys := by
      rw [mem_append]
      by_contra hout
      rw [not_or] at hout
      exact hnone ⟨AList.lookup_eq_none.2 hout.1, AList.lookup_eq_none.2 hout.2⟩
    have hsome := (updateKeys_isSome T).1 (isSome_iff_exists.2 ⟨merged, hmerged⟩)
      key hkey
    obtain ⟨c, hc⟩ := isSome_iff_exists.1 hsome
    exact ⟨c, hc, lookup_updateKeys_of_mem hmerged hkey hc⟩

theorem objectsVia_isSome {B O T : Fields} (hB : unmarshalFields base = some B)
    (hO : unmarshalFields ours = some O) (hT : unmarshalFields theirs = some T)
    (h : ∀ key, (keyChange values key (B.lookup key) (O.lookup key)
      (T.lookup key)).isSome) : ∃ r, objectsVia values base ours theirs = some r := by
  have hloop : (updateKeys (fun key => keyVia values key (B.lookup key) (O.lookup key)
      (T.lookup key)) (B.keys ++ O.keys) T).isSome = true := by
    refine (updateKeys_isSome T).2 fun key hkey => ?_
    have hsome := h key
    unfold keyChange at hsome
    rw [if_neg] at hsome
    · exact hsome
    · rintro ⟨hb, ho⟩
      rw [mem_append] at hkey
      exact hkey.elim (AList.lookup_eq_none.1 hb) (AList.lookup_eq_none.1 ho)
  obtain ⟨merged, hmerged⟩ := isSome_iff_exists.1 hloop
  refine ⟨marshalMap merged, ?_⟩
  simp [objectsVia, hB, hO, hT, hmerged]

/-! ## Lists -/

def entryOutcome (values : Merge) (B O T : Index) (id : Identity) :
    Option (Option Json) :=
  if id ∈ T.byID then theirEntry values B.byID O.byID T.byID id
  else if id ∈ O.byID then ourEntry B.byID O.byID T.byID id
  else some none

/-- Theirs' identities, then those only ours has. -/
def mergedOrder (O T : Index) : List Identity :=
  T.order ++ O.order.filter fun id => id ∉ T.byID

theorem nodup_mergedOrder (O T : Index) : (mergedOrder O T).Nodup := by
  apply Nodup.append T.nodup (O.nodup.filter _)
  intro id hT hO
  have hout := (mem_filter.1 hO).2
  rw [decide_eq_true_eq] at hout
  exact hout ((T.mem_order id).1 hT)

theorem mem_mergedOrder {O T : Index} {id : Identity} :
    id ∈ mergedOrder O T ↔ id ∈ T.byID ∨ id ∈ O.byID := by
  rw [mergedOrder, mem_append, mem_filter, T.mem_order, O.mem_order]
  by_cases hid : id ∈ T.byID
  · simp [hid]
  · simp [hid]

private theorem filterMap_ourEntry (B O T : Index) (l : List Identity) :
    (l.filterMap fun id => (ourEntry B.byID O.byID T.byID id).join) =
      (l.filter fun id => id ∉ T.byID).filterMap fun id =>
        (ourEntry B.byID O.byID T.byID id).join := by
  induction l with
  | nil => rfl
  | cons id l ih =>
    by_cases hid : id ∈ T.byID
    · have hjoin : (ourEntry B.byID O.byID T.byID id).join = none := by
        unfold ourEntry
        rw [if_pos hid]
        rfl
      rw [filterMap_cons, hjoin, filter_cons, if_neg (by simp [hid])]
      exact ih
    · rw [filter_cons, if_pos (by simp [hid]), filterMap_cons,
        filterMap_cons, ih]

private theorem mergedItems (values : Merge) (B O T : Index) : ((T.order.filterMap fun id =>
          (theirEntry values B.byID O.byID T.byID id).join) ++
        O.order.filterMap fun id => (ourEntry B.byID O.byID T.byID id).join) =
      (mergedOrder O T).filterMap fun id => (entryOutcome values B O T id).join := by
  rw [mergedOrder, filterMap_append, filterMap_ourEntry]
  congr 1
  · refine filterMap_congr fun id hid => ?_
    unfold entryOutcome
    rw [if_pos ((T.mem_order id).1 hid)]
  · refine filterMap_congr fun id hid => ?_
    obtain ⟨hO, hT⟩ := mem_filter.1 hid
    rw [decide_eq_true_eq] at hT
    unfold entryOutcome
    rw [if_neg hT, if_pos ((O.mem_order id).1 hO)]

/-- **The list merge, identity by identity.** -/
theorem listsVia_eq_some_iff {r : Json} : listsVia values base ours theirs = some r ↔
      ∃ B O T, indexOf base = some B ∧ indexOf ours = some O ∧ indexOf theirs = some T ∧
        (∀ id, (entryOutcome values B O T id).isSome) ∧
        r = .array ((mergedOrder O T).filterMap fun id =>
          (entryOutcome values B O T id).join) := by
  simp only [listsVia, bind_eq_bind, bind_eq_some_iff, Option.some.injEq,
    collect_eq_some_iff]
  constructor
  · rintro ⟨B, hB, O, hO, T, hT, kept, ⟨hkept, rfl⟩, added, ⟨hadded, rfl⟩, rfl⟩
    refine ⟨B, O, T, hB, hO, hT, fun id => ?_, by rw [mergedItems]⟩
    unfold entryOutcome
    split
    · rename_i hid
      exact hkept id ((T.mem_order id).2 hid)
    · split
      · rename_i hid
        exact hadded id ((O.mem_order id).2 hid)
      · rfl
  · rintro ⟨B, O, T, hB, hO, hT, hall, rfl⟩
    refine ⟨B, hB, O, hO, T, hT, _, ⟨fun id hid => ?_, rfl⟩, _, ⟨fun id hid => ?_, rfl⟩,
      by rw [mergedItems]⟩
    · have hsome := hall id
      unfold entryOutcome at hsome
      rw [if_pos ((T.mem_order id).1 hid)] at hsome
      exact hsome
    · by_cases htheirs : id ∈ T.byID
      · unfold ourEntry
        rw [if_pos htheirs]
        rfl
      · have hsome := hall id
        unfold entryOutcome at hsome
        rw [if_neg htheirs, if_pos ((O.mem_order id).1 hid)] at hsome
        exact hsome

theorem lists_drop {B : Index} (h : indexOf base = some B) :
    mergeMetadataLists base none base = some (.array []) := by
  have hout : ∀ id, entryOutcome mergeMetadataValues B Index.empty B id = some none := by
    intro id
    have hempty : Index.empty.byID.lookup id = none := AList.lookup_empty id
    unfold entryOutcome theirEntry
    by_cases hid : id ∈ B.byID
    · obtain ⟨item, hitem⟩ := isSome_iff_exists.1 (AList.lookup_isSome.2 hid)
      rw [if_pos hid, hempty, hitem]
      simp
    · rw [if_neg hid, if_neg (AList.lookup_eq_none.1 hempty)]
  refine listsVia_eq_some_iff.2 ⟨B, Index.empty, B, h, rfl, h, fun id => ?_, ?_⟩
  · rw [hout id]
    rfl
  · congr 1
    refine (filterMap_eq_nil_iff.2 fun id _ => ?_).symm
    rw [hout id]
    rfl

/-- The merged list with each item under the identity it came from. -/
def mergedEntries (values : Merge) (B O T : Index) : Entries :=
  tabulate (mergedOrder O T) (nodup_mergedOrder O T) fun id =>
    (entryOutcome values B O T id).join

theorem lookup_mergedEntries (values : Merge) (B O T : Index) (id : Identity) :
    (mergedEntries values B O T).lookup id = (entryOutcome values B O T id).join := by
  by_cases hid : id ∈ mergedOrder O T
  · exact lookup_tabulate _ _ hid
  · rw [mergedEntries, lookup_tabulate_of_not_mem _ _ hid]
    rw [mem_mergedOrder, not_or] at hid
    unfold entryOutcome
    rw [if_neg hid.1, if_neg hid.2]
    rfl

theorem values_mergedEntries (values : Merge) (B O T : Index) :
    (mergedEntries values B O T).entries.map Sigma.snd =
      (mergedOrder O T).filterMap fun id => (entryOutcome values B O T id).join :=
  values_tabulate _ _ _

end Flow.Ports.MetadataMerge
