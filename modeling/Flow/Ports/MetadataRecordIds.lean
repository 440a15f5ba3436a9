import Flow.Ports.MetadataRecordRuns

/-!
# No lost update in a metadata record

The lists of ids of a record, and the theorem about all of its members: a
counter adds up, a list of ids carries every writer's additions and removals
in commit order, and a member a writer left alone stays as it was.
-/

namespace Flow.Ports.MetadataRecord

open Option Flow.Ports.MetadataMerge Flow.Verified Keyed Run

/-! ## Lists of ids -/

def isScalar : Json → Bool
  | .array _ => false
  | .object _ => false
  | _ => true

def ScalarIds (v : Option Json) : Prop :=
  emptyMember v = true ∨ ∃ items, v = some (.array items) ∧ ∀ x ∈ items, isScalar x = true

def memberIds : Option Json → List Json
  | some (.array items) => items
  | _ => []

def idsOf (name : String) : Option Record → Set Json
  | none => ∅
  | some record => { x | x ∈ memberIds (record.lookup name) }

/-- A load keeps the ids of a list member. -/
def LoadsIds (load : Record → Record) (name : String) : Prop :=
  ∀ record, ScalarIds (record.lookup name) →
    ScalarIds ((load record).lookup name) ∧
      idsOf name (some (load record)) = idsOf name (some record)

/-- A committed writer's removals and additions. -/
def Commit.applyIds (name : String) (ids : Set Json) (c : Commit) : Set Json :=
  (ids \ (idsOf name c.base \ idsOf name (some c.ours))) ∪
    (idsOf name (some c.ours) \ idsOf name c.base)

variable {v : Option Json} {name : String} {load : Record → Record}

theorem memberIds_of_empty (h : emptyMember v) : memberIds v = [] := by
  rcases emptyMember_cases h with hvalue | rfl | rfl
  · unfold memberIds
    split
    · cases hvalue
    · rfl
  · rfl
  · rfl

theorem memberIds_congr {w : Option Json} (h : jsonEqual v w) : memberIds v = memberIds w := by
  rcases jsonEqual_iff.1 h with rfl | ⟨hv, hw⟩
  · rfl
  · rw [memberIds_of_empty hv, memberIds_of_empty hw]

theorem ScalarIds.isScalar (h : ScalarIds v) {x : Json} (hx : x ∈ memberIds v) : isScalar x := by
  rcases h with hempty | ⟨items, rfl, hall⟩
  · rw [memberIds_of_empty hempty] at hx
    cases hx
  · exact hall x hx

theorem ScalarIds.fits (h : ScalarIds v) : FitsKind .array v := by
  rcases h with hempty | ⟨items, rfl, _⟩
  · exact Or.inr (jsonKind_eq_absent.2 hempty)
  · by_cases hempty : emptyMember (some (.array items)) = true
    · exact Or.inr (jsonKind_eq_absent.2 hempty)
    · apply Or.inl
      unfold jsonKind
      rw [if_neg hempty]

private theorem identity_of_scalar {x : Json} (h : isScalar x) : identity x = some (.value x) := by
  cases x with
  | array items => cases h
  | object members => cases h
  | _ => rfl

private theorem lookup_scalars (hv : ScalarIds v) {idx : Index} (h : indexOf v = some idx)
    (id : Identity) :
    idx.byID.lookup id =
      match id with
      | .value x => if x ∈ memberIds v then some x else none
      | .id _ => none := by
  simp only [indexOf, bind_eq_bind, bind_eq_some_iff] at h
  obtain ⟨items, hitems, hidx⟩ := h
  have hmembers : memberIds v = items := by
    unfold unmarshalItems at hitems
    split at hitems
    · cases hitems
      rfl
    · rw [ite_none_right_eq_some, some.injEq] at hitems
      rw [memberIds_of_empty, hitems.2]
      unfold emptyMember
      rw [hitems.1, Bool.true_or, Bool.true_or]
  have hscalar : ∀ x ∈ items, identity x = some (.value x) := by
    intro x hx
    exact identity_of_scalar (hv.isScalar (hmembers ▸ hx))
  -- what is held is a scalar item under its own text
  have hholds : ∀ item, idx.byID.lookup id = some item →
      item ∈ items ∧ id = .value item := by
    intro item hitem
    obtain ⟨hmem, hident⟩ := index_holds hidx id item hitem
    rw [hscalar item hmem, some.injEq] at hident
    exact ⟨hmem, hident.symm⟩
  rw [hmembers]
  cases id with
  | id s =>
    cases hlookup : idx.byID.lookup (.id s) with
    | none => rfl
    | some item => cases (hholds item hlookup).2
  | value x =>
    dsimp only
    by_cases hx : x ∈ items
    · rw [if_pos hx]
      obtain ⟨i, hi, hmem⟩ := index_covers hidx x hx
      rw [hscalar x hx, some.injEq] at hi
      subst hi
      obtain ⟨item, hitem⟩ := isSome_iff_exists.1 (AList.lookup_isSome.2 hmem)
      rw [hitem]
      cases (hholds item hitem).2
      rfl
    · rw [if_neg hx]
      cases hlookup : idx.byID.lookup (.value x) with
      | none => rfl
      | some item =>
        obtain ⟨hmem, heq⟩ := hholds item hlookup
        cases heq
        exact absurd hmem hx

def KeepsId (base ours theirs : List Json) (x : Json) : Prop :=
  (x ∈ theirs ∧ ¬(x ∈ base ∧ x ∉ ours)) ∨ (x ∈ ours ∧ x ∉ base)

private theorem entryOutcome_scalars {base ours theirs : Option Json} {B O T : Index}
    (hb : ScalarIds base) (ho : ScalarIds ours) (ht : ScalarIds theirs) (hB : indexOf base = some B)
    (hO : indexOf ours = some O) (hT : indexOf theirs = some T) (id : Identity) (x : Json) :
    (entryOutcome mergeMetadataValues B O T id).join = some x ↔
      id = .value x ∧ KeepsId (memberIds base) (memberIds ours) (memberIds theirs) x := by
  have hlB := lookup_scalars hb hB id
  have hlO := lookup_scalars ho hO id
  have hlT := lookup_scalars ht hT id
  unfold entryOutcome theirEntry ourEntry KeepsId
  cases id with
  | id s =>
    have hout : Identity.id s ∉ T.byID := AList.lookup_eq_none.1 hlT
    have hout' : Identity.id s ∉ O.byID := AList.lookup_eq_none.1 hlO
    simp [hout, hout']
  | value y =>
    have hmemT : Identity.value y ∈ T.byID ↔ y ∈ memberIds theirs := by
      rw [← AList.lookup_isSome, hlT]
      by_cases hy : y ∈ memberIds theirs <;> simp
    have hmemO : Identity.value y ∈ O.byID ↔ y ∈ memberIds ours := by
      rw [← AList.lookup_isSome, hlO]
      by_cases hy : y ∈ memberIds ours <;> simp
    simp only [hlB, hlO, hlT, hmemT, hmemO]
    by_cases hyB : y ∈ memberIds base <;> by_cases hyO : y ∈ memberIds ours <;>
      by_cases hyT : y ∈ memberIds theirs <;> simp [hyB, hyO, hyT]
    all_goals
      intro heq
      subst heq
      simp [hyB, hyO, hyT]

/-- The list merge of scalars decides each id on its own. -/
private theorem lists_of_scalars {base ours theirs : Option Json} {r : Json}
    (hb : ScalarIds base) (ho : ScalarIds ours) (ht : ScalarIds theirs)
    (h : mergeMetadataLists base ours theirs = some r) :
    ScalarIds (some r) ∧ ∀ x, x ∈ memberIds (some r) ↔
      KeepsId (memberIds base) (memberIds ours) (memberIds theirs) x := by
  obtain ⟨B, O, T, hB, hO, hT, _, rfl⟩ := listsVia_eq_some_iff.1 h
  have hmem : ∀ x, x ∈ ((mergedOrder O T).filterMap fun id =>
      (entryOutcome mergeMetadataValues B O T id).join) ↔
      KeepsId (memberIds base) (memberIds ours) (memberIds theirs) x := by
    intro x
    rw [List.mem_filterMap]
    constructor
    · rintro ⟨id, _, hid⟩
      exact ((entryOutcome_scalars hb ho ht hB hO hT id x).1 hid).2
    · intro hx
      refine ⟨.value x, ?_, (entryOutcome_scalars hb ho ht hB hO hT _ x).2 ⟨rfl, hx⟩⟩
      rw [mem_mergedOrder, ← AList.lookup_isSome, ← AList.lookup_isSome,
        lookup_scalars ht hT, lookup_scalars ho hO]
      rcases hx with ⟨hin, _⟩ | ⟨hin, _⟩
      · exact Or.inl (by simp [hin])
      · exact Or.inr (by simp [hin])
  refine ⟨Or.inr ⟨_, rfl, fun x hx => ?_⟩, hmem⟩
  rcases (hmem x).1 hx with ⟨hin, _⟩ | ⟨hin, _⟩
  · exact ht.isScalar hin
  · exact ho.isScalar hin

private theorem eq_null_of_scalarIds (hv : ScalarIds v) {instant : Int}
    (h : unmarshalTime v = some instant) : v = some .null := by
  rcases hv with hempty | ⟨items, rfl, _⟩
  · rcases emptyMember_cases hempty with hvalue | rfl | rfl
    · unfold emptyJSONValue at hvalue
      split at hvalue
      · cases h
      · rfl
      · rw [beq_iff_eq] at hvalue
        subst hvalue
        cases h
      · cases hvalue
    · cases h
    · cases h
  · cases h

private theorem empty_of_count (hv : ScalarIds v) {n : Int} (h : count v = some n) :
    emptyMember v := by
  rcases count_cases h with ⟨hempty, _⟩ | ⟨number, rfl, _⟩
  · exact hempty
  · rcases hv with hempty | ⟨items, heq, _⟩
    · exact hempty
    · cases heq

private theorem member_of_scalars {base ours loaded : Option Json} (hb : ScalarIds base)
    (ho : ScalarIds ours) (hl : ScalarIds loaded) (hours : jsonEqual ours base = false)
    (hloaded : jsonEqual loaded base = false)
    (htime : name = "updatedAt" → laterTime ours loaded = none)
    (h : mergeMetadataMember name base ours loaded = some v) :
    ScalarIds v ∧ ∀ x, x ∈ memberIds v ↔
      KeepsId (memberIds base) (memberIds ours) (memberIds loaded) x := by
  have hvalues : mergeMetadataValues base ours loaded = some v := by
    rcases memberVia_cases mergeMetadataValues name base ours loaded with
      hv | ⟨hname, w, hlater, -⟩ | ⟨-, -, w, hdelta, -⟩
    · exact hv.symm.trans h
    · cases (htime hname).symm.trans hlater
    · simp only [addDelta, bind_eq_bind, bind_eq_some_iff] at hdelta
      obtain ⟨before, hbefore, mine, hmine, _⟩ := hdelta
      rw [jsonEqual_iff.2 (Or.inr ⟨empty_of_count ho hmine, empty_of_count hb hbefore⟩)]
        at hours
      cases hours
  have hfit : AllFit .array base ours loaded := ⟨hb.fits, ho.fits, hl.fits⟩
  rw [mergeMetadataValues_eq, valuesVia_of_changed _ hours hloaded,
    if_neg (not_allFit_object hours hfit), if_pos hfit, map_eq_some_iff] at hvalues
  obtain ⟨r, hr, rfl⟩ := hvalues
  exact lists_of_scalars hb ho hl hr

/-- The merge of a list member without conflict decides each id on its own. -/
theorem mergeField_ids {base ours loaded stored : Option Json} (hb : ScalarIds base)
    (ho : ScalarIds ours) (hl : ScalarIds loaded) (hs : ScalarIds stored)
    (hsame : ∀ x, x ∈ memberIds loaded ↔ x ∈ memberIds stored)
    (hok : (mergeField name base ours loaded).2 = false) :
    ScalarIds ((mergeField name base ours loaded).1.value stored) ∧
      ∀ x, x ∈ memberIds ((mergeField name base ours loaded).1.value stored) ↔
        KeepsId (memberIds base) (memberIds ours) (memberIds stored) x := by
  -- two lists that decode as times are both null, so neither is the later one
  have hnull : ∀ {later : Bool}, laterUpdate name ours loaded = some later →
      later = false ∧ ours = some .null ∧ loaded = some .null := by
    intro later hlater
    unfold laterUpdate at hlater
    rw [ite_none_right_eq_some] at hlater
    simp only [bind_eq_bind, bind_eq_some_iff, some.injEq] at hlater
    obtain ⟨_, mine, hmine, their, htheir, rfl⟩ := hlater
    obtain rfl := eq_null_of_scalarIds ho hmine
    obtain rfl := eq_null_of_scalarIds hl htheir
    cases hmine.symm.trans htheir
    exact ⟨decide_eq_false (Int.lt_irrefl _), rfl, rfl⟩
  simp only [KeepsId, ← hsame]
  revert hok
  fun_cases mergeField name base ours loaded with
  | case1 hkeep =>
    refine fun _ => ⟨hs, fun x => ?_⟩
    rw [memberIds_congr hkeep, hsame]
    simp [KeyChange.value]
  | case2 _ hcurrent =>
    rw [value_setMember]
    refine fun _ => ⟨ho, fun x => ?_⟩
    rw [memberIds_congr hcurrent]
    by_cases hx : x ∈ memberIds base <;> simp [hx]
  | case3 _ _ hlater => cases (hnull hlater).1
  | case4 _ _ hlater =>
    obtain ⟨-, rfl, rfl⟩ := hnull hlater
    refine fun _ => ⟨hs, fun x => (hsame x).symm.trans ?_⟩
    simp [memberIds]
  | case6 => exact nofun
  | case5 hkeep hcurrent hlater value hvalue =>
    rw [value_setMember]
    refine fun _ => member_of_scalars hb ho hl
      ((jsonEqual_comm _ _).trans (Bool.eq_false_iff.2 hkeep)) (Bool.eq_false_iff.2 hcurrent) ?_
      hvalue
    intro hname
    unfold laterUpdate at hlater
    rw [if_pos hname] at hlater
    unfold laterTime
    cases hmine : unmarshalTime ours with
    | none => rfl
    | some mine =>
      cases htheir : unmarshalTime loaded with
      | none => rfl
      | some their => simp [hmine, htheir] at hlater

@[simp] theorem applyIds_base (c : Commit) :
    c.applyIds name (idsOf name c.base) = idsOf name (some c.ours) := by
  ext x
  by_cases hx : x ∈ idsOf name c.base <;> simp [Commit.applyIds, hx]

/-- **What a committed write does to a list of ids.** -/
theorem ids_write (hload : LoadsIds load name) {c : Commit}
    (hwrite : Writes load c.base c.ours c.row c.written)
    (hbase : ∀ base, c.base = some base → ScalarIds (base.lookup name))
    (hours : ScalarIds (c.ours.lookup name))
    (hrow : ∀ row, c.row = some row → ScalarIds (row.lookup name)) :
    ScalarIds (c.written.lookup name) ∧
      idsOf name (some c.written) = c.applyIds name (idsOf name c.row) := by
  obtain ⟨base, ours, row, written⟩ := c
  have hbaseIds : { x | x ∈ memberIds ((base.getD ∅).lookup name) } = idsOf name base := by
    cases base with
    | none => simp [idsOf, memberIds]
    | some base => rfl
  cases hwrite with
  | created => exact ⟨hours, (applyIds_base ⟨none, ours, none, ours⟩).symm⟩
  | @found _ row hfound =>
    refine ⟨hours, ?_⟩
    have heq : idsOf name (some row) = idsOf name (some ours) := by
      simp [idsOf, recordEqual_iff.1 hfound name]
    rw [heq]
    simp [Commit.applyIds, idsOf]
  | @current base _ row hcurrent =>
    refine ⟨hours, ?_⟩
    have heq : idsOf name (some row) = idsOf name (some base) := by
      simp [idsOf, recordEqual_iff.1 hcurrent name]
    rw [heq]
    exact (applyIds_base ⟨some base, ours, some row, ours⟩).symm
  | @presented _ _ row hown hloaded =>
    refine ⟨hours, ?_⟩
    have heq : idsOf name (some row) = idsOf name base := by
      rw [← (hload row (hrow row rfl)).2, ← hbaseIds, idsOf, recordEqual_iff.1 hloaded name]
    rw [heq]
    exact (applyIds_base ⟨base, ours, some row, ours⟩).symm
  | @merged _ _ row _ hown hfields =>
    obtain ⟨hok, hvalue⟩ := hfields name
    have hrow' := hrow row rfl
    obtain ⟨hscalar, hids⟩ := hload row hrow'
    have hbase' : ScalarIds ((base.getD ∅).lookup name) := by
      cases base with
      | none => exact Or.inl rfl
      | some base => exact hbase base rfl
    obtain ⟨hwritten, hmem⟩ := mergeField_ids hbase' hours hscalar hrow' (Set.ext_iff.1 hids) hok
    rw [← hvalue] at hwritten hmem
    refine ⟨hwritten, ?_⟩
    ext x
    rw [Commit.applyIds, Set.mem_union, ← hbaseIds]
    exact hmem x

/-- The list of ids through a run. -/
structure IdsInv (name : String) (start : Set Json) (s : Writers) : Prop where
  current : idsOf name s.row = s.commits.foldl (Commit.applyIds name) start
  versions : ∀ record, some record ∈ s.versions → ScalarIds (record.lookup name)

/-- **A list of ids is the initial one with each writer's additions and
removals applied in commit order.** -/
theorem ids_of_reaches (hload : LoadsIds load name) {s₀ s : Writers} (hfresh : s₀.commits = [])
    (hstart : ∀ record, s₀.initial = some record → ScalarIds (record.lookup name))
    (hrun : Reaches (step load) Unrestricted s₀ s)
    (hours : ∀ c ∈ s.commits, ScalarIds (c.ours.lookup name)) :
    idsOf name s.row = s.commits.foldl (Commit.applyIds name) (idsOf name s₀.initial) := by
  obtain ⟨hversions, hrow⟩ := Writers.of_fresh hfresh
  refine (commits_induction (P := IdsInv name (idsOf name s₀.initial)) hrun hours
    { current := by rw [hrow, hfresh]; rfl, versions := ?_ } ?_).current
  · intro record hrecord
    rw [hversions, List.mem_singleton] at hrecord
    exact hstart record hrecord.symm
  · intro s version ours written hversion hwrite hscalar h
    have hbase : ∀ base, version.map load = some base → ScalarIds (base.lookup name) := by
      intro base hbase
      obtain ⟨record, rfl, rfl⟩ := map_eq_some_iff.1 hbase
      exact (hload record (h.versions record hversion)).1
    obtain ⟨hwritten, hids⟩ := ids_write (c := ⟨version.map load, ours, s.row, written⟩) hload
      hwrite hbase hscalar fun row hrow => h.versions row (hrow ▸ s.row_mem)
    refine { current := ?_, versions := ?_ }
    · rw [Writers.row_append, hids, h.current, List.foldl_append]
      rfl
    · intro record hrecord
      rcases Writers.mem_versions_append.1 hrecord with hold | heq
      · exact h.versions record hold
      · cases heq
        exact hwritten

/-! ## Members a writer left alone -/

def fieldOf (name : String) (record : Option Record) : Option Json :=
  record.bind fun r => r.lookup name

/-- **A committed writer that did not change a member leaves it as stored**,
or as a load presents what is stored where that is what the writer read. -/
theorem field_write {base row : Option Record} {ours written : Record}
    (hwrite : Writes load base ours row written)
    (hsame : jsonEqual (ours.lookup name) (fieldOf name base)) :
    jsonEqual (written.lookup name) (fieldOf name row) ∨
      ∃ stored, row = some stored ∧ recordEqual (load stored) (base.getD ∅) ∧
        jsonEqual (written.lookup name) ((load stored).lookup name) := by
  have hbase : (base.getD ∅).lookup name = fieldOf name base := by
    cases base with
    | none => rfl
    | some base => rfl
  cases hwrite with
  | created => exact Or.inl hsame
  | @found _ row hfound =>
    apply Or.inl
    rw [← recordEqual_iff.1 hfound name]
    exact jsonEqual_refl _
  | @current base _ row hcurrent =>
    apply Or.inl
    have hrow : fieldOf name (some row) = fieldOf name (some base) :=
      recordEqual_iff.1 hcurrent name
    rw [hrow]
    exact hsame
  | @presented _ _ row hown hloaded =>
    refine Or.inr ⟨row, rfl, hloaded, ?_⟩
    rw [recordEqual_iff.1 hloaded name, hbase]
    exact hsame
  | @merged _ _ row _ hown hfields =>
    apply Or.inl
    obtain ⟨_, hvalue⟩ := hfields name
    unfold mergeField at hvalue
    rw [hbase, if_pos (jsonEqual_symm hsame)] at hvalue
    rw [hvalue]
    exact jsonEqual_refl _

/-- Every commit found the row the commits before it left, and wrote what the
rebase returned for it. -/
def Logged (load : Record → Record) (s : Writers) : Prop :=
  ∀ before c after, s.commits = before ++ c :: after →
    c.row = Writers.row { s with commits := before } ∧
      Writes load c.base c.ours c.row c.written

private theorem Logged.step {s s' : Writers} {w : Write} (h : Logged load s)
    (hstep : step load s w = some s') : Logged load s' := by
  rcases step_cases hstep with rfl | ⟨version, _, written, hwrite, rfl⟩
  · exact h
  · intro before c after heq
    -- the commit is the new one, or one of the old ones
    rcases List.eq_nil_or_concat after with rfl | ⟨init, last, rfl⟩
    · obtain ⟨hinit, hlast⟩ := List.append_inj' heq rfl
      cases hlast
      rw [← hinit]
      exact ⟨rfl, hwrite⟩
    · rw [List.concat_eq_append, ← List.cons_append, ← List.append_assoc] at heq
      have hold := (List.append_inj' heq rfl).1
      exact h before c init hold

/-- **No lost update.** For every order of the writers of one record: a counter no writer
decreased is its initial value plus the committed increments; a list of ids is the initial one
with each committed writer's removals and additions in commit order; and a committed writer that
did not change a member leaves it as the row before had it, or as the load presented that row, if
that was all the writer had read. -/
theorem no_lost_update {load : Record → Record} {s₀ s : Writers}
    (hfresh : s₀.commits = []) (hrun : Reaches (step load) Unrestricted s₀ s) :
    (∀ name ∈ additiveCounters, ∀ floor start, LoadsCounter load name floor →
      (∀ record, s₀.initial = some record →
        ∃ value, count (record.lookup name) = some value) →
      presented load name s₀.initial = some start → 0 ≤ start →
      (∀ c ∈ s.commits, c.Counts name floor) →
      presented load name s.row =
        some (start + (s.commits.map (Commit.increment name)).sum)) ∧
    (∀ name, LoadsIds load name →
      (∀ record, s₀.initial = some record → ScalarIds (record.lookup name)) →
      (∀ c ∈ s.commits, ScalarIds (c.ours.lookup name)) →
      idsOf name s.row =
        s.commits.foldl (Commit.applyIds name) (idsOf name s₀.initial)) ∧
    (∀ before c after, s.commits = before ++ c :: after →
      ∀ name, jsonEqual (c.ours.lookup name) (fieldOf name c.base) = true →
        jsonEqual (c.written.lookup name)
            (fieldOf name (Writers.row { s with commits := before })) = true ∨
          ∃ stored, Writers.row { s with commits := before } = some stored ∧
            recordEqual (load stored) (c.base.getD ∅) = true ∧
            jsonEqual (c.written.lookup name) ((load stored).lookup name) = true) := by
  refine ⟨?_, ?_, ?_⟩
  · intro name hname floor start hload hcounted hstart hpos hcounts
    exact counter_of_reaches hname hload hfresh hcounted hstart hpos hrun hcounts
  · intro name hload hstart hours
    exact ids_of_reaches hload hfresh hstart hrun hours
  · intro before c after heq name hsame
    have hlogged : Logged load s :=
      Reaches.invariant (fun _ _ _ h _ hstep => h.step hstep) hrun
        (fun before c after h => by simp [hfresh] at h)
    obtain ⟨hrow, hwrite⟩ := hlogged before c after heq
    rw [← hrow]
    exact field_write hwrite hsame

def labelled (version : Int) (labels : List String) : Record :=
  unmarshalMap [("labelIds", .array (labels.map .string)),
    ("version", .number (JsonNumber.formatInt version))]

/-- A load that fills nothing in presents every counter as stored. -/
theorem loadsCounter_id (name : String) : LoadsCounter id name minInt64 := by
  intro record value hvalue
  have hmin : minInt64 ≤ value := by
    rcases count_cases hvalue with ⟨_, rfl⟩ | ⟨number, _, hparse⟩
    · decide
    · exact (JsonNumber.parseInt_range hparse).1
  rw [Int.max_eq_right hmin]
  exact hvalue

/-- Two writers of version 3 with label `a`: one adds label `b`, the other
drops `a` and counts two. -/
def bothFromThree : List Write :=
  [⟨0, labelled 4 ["a", "b"]⟩, ⟨0, labelled 5 []⟩]

theorem no_lost_update_bothFromThree :
    ∃ s, exec (step id) Unrestricted bothFromThree ⟨some (labelled 3 ["a"]), []⟩ = some s ∧
      presented id "version" s.row =
        some (3 + (s.commits.map (Commit.increment "version")).sum) ∧
      presented id "version" s.row = some 6 := by
  refine ⟨_, rfl, ?_, by decide⟩
  have hcounts : ∀ c : Commit, c.base.isSome = true ∧ c.before "version" = some 3 ∧
      (c.mine "version" = some 4 ∨ c.mine "version" = some 5) →
      c.Counts "version" minInt64 := by
    rintro c ⟨hbase, hbefore, hmine⟩
    have hcreated : ∀ mine : Int, c.base = none → minInt64 ≤ mine := by
      intro mine hnone
      rw [hnone] at hbase
      cases hbase
    rcases hmine with hmine | hmine
    · exact ⟨3, 4, hbefore, hmine, by decide, hcreated 4⟩
    · exact ⟨3, 5, hbefore, hmine, by decide, hcreated 5⟩
  refine (no_lost_update rfl (reaches_of_exec bothFromThree
    ⟨some (labelled 3 ["a"]), []⟩ _ rfl)).1 "version" (by decide) minInt64 3
    (loadsCounter_id _) ?_ rfl (by decide) ?_
  · intro record hrecord
    cases hrecord
    exact ⟨3, by decide⟩
  · exact fun c hc => hcounts c (by revert c; decide)

/-- Two writers that saw no record create the same one: both commit, each
counting one from nothing, and the counter is one. -/
theorem created_twice :
    ∃ s, exec (step id) Unrestricted [⟨0, labelled 1 []⟩, ⟨0, labelled 1 []⟩]
        ⟨none, []⟩ = some s ∧
      s.commits.map (fun c => (c.before "version", c.mine "version")) =
        [(some 0, some 1), (some 0, some 1)] ∧
      presented id "version" s.row = some 1 := by
  exact ⟨_, rfl, by decide, by decide⟩

end Flow.Ports.MetadataRecord
