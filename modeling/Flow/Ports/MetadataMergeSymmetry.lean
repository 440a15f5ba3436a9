import Flow.Ports.MetadataMergeKeeps
import Mathlib.Data.Option.Basic

/-!
# When the merge does not depend on which writer came first

`SameMerge` compares two merged values up to what the order of the writers
may change: the order of list entries, the text of one instant in
`updatedAt`, and which empty value stands for absence.

The object merge treats a key that only ours changed through branches that
never look whether theirs still has base's value.  Seen from the other side
the same key is a key ours left alone, and theirs is kept.  `LopsidedKey`
names the four ways the two views disagree: a list without identities that
one side removed, an empty member of base that one side left out, an
`updatedAt` one side moved back, and a counter whose text is not the one a
formatter writes.  `Uneven` is such a key somewhere the merge descends to.
-/

namespace Flow.Ports.MetadataMerge

open Flow.Verified Keyed
open Option (Rel)

mutual

/-- Two values that are the same merge. -/
inductive SameMerge : Option Json → Option Json → Prop
  | equal {v w : Option Json} : jsonEqual v w = true → SameMerge v w
  | object {v w : Option Json} {V W : Fields} :
      unmarshalFields v = some V → unmarshalFields w = some W →
      (∀ key, SameMember key (V.lookup key) (W.lookup key)) → SameMerge v w
  | list {V W : Entries} :
      (∀ id, id ∈ V ↔ id ∈ W) → (∀ id, SameMerge (V.lookup id) (W.lookup id)) →
      SameMerge (some (.array (V.entries.map Sigma.snd)))
        (some (.array (W.entries.map Sigma.snd)))

/-- The same for the value of a key: one instant may be written two ways. -/
inductive SameMember : String → Option Json → Option Json → Prop
  | value {key : String} {v w : Option Json} : SameMerge v w → SameMember key v w
  | time {v w : Option Json} {instant : Int} :
      unmarshalTime v = some instant → unmarshalTime w = some instant →
      SameMember "updatedAt" v w

end

theorem SameMerge.refl (v : Option Json) : SameMerge v v := .equal (jsonEqual_refl v)

mutual

theorem SameMerge.symm : ∀ {v w : Option Json}, SameMerge v w → SameMerge w v
  | _, _, .equal h => .equal (jsonEqual_symm h)
  | _, _, .object hV hW hkeys => .object hW hV fun key => (hkeys key).symm
  | _, _, .list hids hentries =>
    .list (fun id => (hids id).symm) fun id => (hentries id).symm

theorem SameMember.symm :
    ∀ {key : String} {v w : Option Json}, SameMember key v w → SameMember key w v
  | _, _, _, .value h => .value h.symm
  | _, _, _, .time hv hw => .time hw hv

end

private theorem SameMerge.getD_null {v w : Option Json} (h : SameMerge v w) :
    SameMerge (some (v.getD .null)) (some (w.getD .null)) := by
  have hnull : ∀ u : Option Json, jsonEqual (some (u.getD .null)) u = true := by
    intro u
    cases u with
    | none => rfl
    | some u => exact jsonEqual_refl _
  have hfields : ∀ {u : Option Json} {U : Fields}, unmarshalFields u = some U →
      unmarshalFields (some (u.getD .null)) = some U := by
    intro u U hU
    cases u with
    | none => exact hU
    | some u => exact hU
  cases h with
  | equal heq =>
    exact .equal (jsonEqual_trans (hnull v) (jsonEqual_trans heq (jsonEqual_symm (hnull w))))
  | object hV hW hkeys => exact .object (hfields hV) (hfields hW) hkeys
  | list hids hentries => exact .list hids hentries

/-! ## Where the two orders disagree -/

/-- A key only `ours` changed that the object merge does not give ours'
value, though it keeps that value when the sides are swapped. -/
inductive LopsidedKey : String → Option Json → Option Json → Option Json → Prop
  | list {key : String} {b : Json} :
      jsonKind (some b) = .array → indexOf (some b) = none →
      LopsidedKey key (some b) none (some b)
  | absent {key : String} {b o : Json} :
      emptyMember (some b) = true → emptyMember (some o) = false →
      LopsidedKey key (some b) (some o) none
  | time {b o t : Json} {mine their : Int} :
      jsonEqual (some o) (some b) = false → jsonEqual (some t) (some b) = true →
      unmarshalTime (some o) = some mine → unmarshalTime (some t) = some their →
      mine < their → LopsidedKey "updatedAt" (some b) (some o) (some t)
  | counter {key : String} {b o t v : Json} :
      key ∈ additiveCounters → jsonEqual (some o) (some b) = false →
      jsonEqual (some t) (some b) = true →
      addDelta (some b) (some o) (some t) = some v → v ≠ o →
      LopsidedKey key (some b) (some o) (some t)
  | added {key : String} {o v : Json} :
      key ∈ additiveCounters → addDelta none (some o) none = some v → v ≠ o →
      LopsidedKey key none (some o) none

/-- Somewhere the merge of two changed values descends to, a key is lopsided
one way or the other. -/
inductive Uneven : Option Json → Option Json → Option Json → Prop
  | here {base ours theirs : Option Json} {B O T : Fields} (key : String) :
      BothChanged base ours theirs → AllFit .object base ours theirs →
      unmarshalFields base = some B → unmarshalFields ours = some O →
      unmarshalFields theirs = some T →
      LopsidedKey key (B.lookup key) (O.lookup key) (T.lookup key) ∨
        LopsidedKey key (B.lookup key) (T.lookup key) (O.lookup key) →
      Uneven base ours theirs
  | key {base ours theirs : Option Json} {B O T : Fields} (key : String) {o t : Json} :
      BothChanged base ours theirs → AllFit .object base ours theirs →
      unmarshalFields base = some B → unmarshalFields ours = some O →
      unmarshalFields theirs = some T →
      O.lookup key = some o → T.lookup key = some t →
      Uneven (B.lookup key) (some o) (some t) → Uneven base ours theirs
  | entry {base ours theirs : Option Json} {B O T : Index} (id : Identity) {o t : Json} :
      BothChanged base ours theirs → AllFit .array base ours theirs →
      indexOf base = some B → indexOf ours = some O → indexOf theirs = some T →
      O.byID.lookup id = some o → T.byID.lookup id = some t →
      Uneven (B.byID.lookup id) (some o) (some t) → Uneven base ours theirs

variable {base ours theirs : Option Json} {key : String} {b o t : Json} {id : Identity}

theorem Uneven.fits (h : Uneven base ours theirs) :
    AllFit .object base ours theirs ∨ AllFit .array base ours theirs := by
  cases h with
  | here _ _ hfit => exact Or.inl hfit
  | key _ _ hfit => exact Or.inl hfit
  | entry _ _ hfit => exact Or.inr hfit

/-- Among keys both sides have, only those merged by name can be lopsided. -/
theorem LopsidedKey.merged_by_name {t : Json} (h : LopsidedKey key base (some o) (some t)) :
    key = "updatedAt" ∨ key ∈ additiveCounters := by
  cases h with
  | time => exact Or.inl rfl
  | counter hkey => exact Or.inr hkey

theorem AllFit.swap {kind : JsonKind} (h : AllFit kind base ours theirs) :
    AllFit kind base theirs ours :=
  ⟨h.1, h.2.2, h.2.1⟩

/-! ## One key, the sides swapped -/

/-- Two changes of a key that leave the same merge. -/
def SameChange (key : String) (ours theirs : Option Json)
    (c c' : KeyChange Json) : Prop :=
  SameMember key (c.value theirs) (c'.value ours)

private theorem SameChange.symm {c c' : KeyChange Json} (h : SameChange key ours theirs c c') :
    SameChange key theirs ours c' c := SameMember.symm h

section Rel

variable {α β : Type} {R : α → α → Prop} {x y : Option α}

private theorem rel_map {S : β → β → Prop} {f g : α → β} (hRS : ∀ a b, R a b → S (f a) (g b))
    (h : Rel R x y) : Rel S (x.map f) (y.map g) := by
  cases h with
  | some h => exact .some (hRS _ _ h)
  | none => exact .none

private theorem rel_symm {S : α → α → Prop} (hRS : ∀ a b, R a b → S b a)
    (h : Rel R x y) : Rel S y x := by
  cases h with
  | some h => exact .some (hRS _ _ h)
  | none => exact .none

theorem rel_isSome (h : Rel R x y) : x.isSome = y.isSome := by
  cases h <;> rfl

private theorem rel_of_some (hxy : ∀ a, x = some a → ∃ b, y = some b ∧ R a b)
    (hyx : ∀ b, y = some b → ∃ a, x = some a) : Rel R x y := by
  cases x with
  | none =>
    cases y with
    | none => exact .none
    | some b =>
      obtain ⟨a, ha⟩ := hyx b rfl
      cases ha
  | some a =>
    obtain ⟨b, rfl, hab⟩ := hxy a rfl
    exact .some hab

end Rel

/-- The two orders refuse both, or leave the same merge. -/
def Swaps (base ours theirs : Option Json) : Prop :=
  Rel SameMerge (mergeMetadataValues base ours theirs)
    (mergeMetadataValues base theirs ours)

theorem Swaps.symm (h : Swaps base ours theirs) : Swaps base theirs ours :=
  rel_symm (fun _ _ => SameMerge.symm) h

/-- Two merged members that are written alike. -/
private def SameWritten (key : String) (v w : Option Json) : Prop :=
  SameMember key (some (v.getD .null)) (some (w.getD .null))

private theorem laterTime_swap (o t : Json) :
    Rel (SameWritten "updatedAt") (laterTime (some o) (some t)) (laterTime (some t) (some o)) := by
  unfold laterTime
  cases hmine : unmarshalTime (some o) with
  | none => cases unmarshalTime (some t) <;> exact .none
  | some mine =>
    cases htheir : unmarshalTime (some t) with
    | none => exact .none
    | some their =>
      refine .some ?_
      rcases Int.lt_trichotomy mine their with hlt | rfl | hlt
      · rw [if_neg (by omega), if_pos hlt]
        exact .value (SameMerge.refl _)
      · rw [if_neg (Int.lt_irrefl _), if_neg (Int.lt_irrefl _)]
        exact .time htheir hmine
      · rw [if_pos hlt, if_neg (by omega)]
        exact .value (SameMerge.refl _)

private theorem addDelta_swap (base ours theirs : Option Json) :
    addDelta base ours theirs = addDelta base theirs ours := by
  unfold addDelta
  cases count base with
  | none => rfl
  | some before =>
    cases count ours with
    | none => cases count theirs <;> rfl
    | some mine =>
      cases count theirs with
      | none => rfl
      | some their =>
        have hsum : their + (mine - before) = mine + (their - before) := by omega
        have hguard : (0 ≤ before ∧ before ≤ mine ∧ before ≤ their ∧
              their ≤ maxInt64 - (mine - before)) ↔
            (0 ≤ before ∧ before ≤ their ∧ before ≤ mine ∧
              mine ≤ maxInt64 - (their - before)) := by omega
        simp only [Option.bind_eq_bind, Option.bind_some, hsum, hguard]

private theorem member_swap (key : String) (h : Swaps base (some o) (some t)) :
    Rel (SameWritten key) (mergeMetadataMember key base (some o) (some t))
      (mergeMetadataMember key base (some t) (some o)) := by
  have hvalues : Rel (SameWritten key) (mergeMetadataValues base (some o) (some t))
      (mergeMetadataValues base (some t) (some o)) :=
    rel_symm (fun _ _ hvw => .value hvw.symm.getD_null) h.symm
  unfold mergeMetadataMember memberVia
  by_cases hkey : key = "updatedAt"
  · subst hkey
    have hlater := laterTime_swap o t
    generalize laterTime (some o) (some t) = x at hlater ⊢
    generalize laterTime (some t) (some o) = y at hlater ⊢
    cases hlater with
    | some hsame => exact .some hsame
    | none => exact hvalues
  · rw [if_neg hkey, if_neg hkey]
    by_cases hcounter : key ∈ additiveCounters
    · rw [if_pos hcounter, if_pos hcounter, addDelta_swap base (some t) (some o)]
      cases addDelta base (some o) (some t) with
      | none => exact hvalues
      | some v => exact .some (.value (SameMerge.refl _))
    · rw [if_neg hcounter, if_neg hcounter]
      exact hvalues

/-! ## Lists, the sides swapped -/

/-- Two outcomes of an identity that leave the same merge. -/
private def SameOutcome (e e' : Option Json) : Prop :=
  SameMerge e e' ∧ e.isSome = e'.isSome

private def EntrySwaps (B O T : Index) (id : Identity) : Prop :=
  Rel SameOutcome (entryOutcome mergeMetadataValues B O T id)
    (entryOutcome mergeMetadataValues B T O id)

section Entries

variable {B O T : Index}

private theorem entry_swap_present (hO : O.byID.lookup id = some o)
    (hT : T.byID.lookup id = some t) (h : Swaps (B.byID.lookup id) (some o) (some t)) :
    EntrySwaps B O T id := by
  have hmemO : id ∈ O.byID := AList.lookup_isSome.1 (by rw [hO]; rfl)
  have hmemT : id ∈ T.byID := AList.lookup_isSome.1 (by rw [hT]; rfl)
  have hvalues := rel_map (S := SameOutcome) (f := fun v => some (v.getD .null))
    (g := fun v => some (v.getD .null)) (fun _ _ hvw => ⟨hvw.getD_null, rfl⟩) h
  unfold EntrySwaps entryOutcome theirEntry
  rw [if_pos hmemT, if_pos hmemO, hO, hT]
  generalize B.byID.lookup id = base at hvalues ⊢
  cases base with
  | none =>
    simp only
    by_cases hsame : jsonEqual (some o) (some t) = true
    · rw [if_pos hsame, if_pos (jsonEqual_symm hsame)]
      exact .some ⟨.equal (jsonEqual_symm hsame), rfl⟩
    · rw [if_neg hsame, if_neg fun h => hsame (jsonEqual_symm h)]
      exact hvalues
  | some b =>
    simp only
    by_cases hours : jsonEqual (some o) (some b) = true
    · rw [if_pos hours]
      by_cases htheirs : jsonEqual (some t) (some b) = true
      · rw [if_pos htheirs]
        exact .some ⟨.equal (jsonEqual_trans htheirs (jsonEqual_symm hours)), rfl⟩
      · rw [if_neg htheirs, if_pos hours]
        exact .some ⟨SameMerge.refl _, rfl⟩
    · rw [if_neg hours]
      by_cases htheirs : jsonEqual (some t) (some b) = true
      · rw [if_pos htheirs, if_pos htheirs]
        exact .some ⟨SameMerge.refl _, rfl⟩
      · rw [if_neg htheirs, if_neg htheirs, if_neg hours]
        exact hvalues

private theorem entry_swap_absent (hO : id ∉ O.byID) : EntrySwaps B O T id := by
  unfold EntrySwaps entryOutcome theirEntry ourEntry
  by_cases hT : id ∈ T.byID
  · rw [if_pos hT, if_neg hO, if_pos hT, if_neg hO, AList.lookup_eq_none.2 hO]
    cases B.byID.lookup id with
    | none => exact .some ⟨SameMerge.refl _, rfl⟩
    | some b =>
      simp only
      split
      · exact .some ⟨SameMerge.refl _, rfl⟩
      · exact .none
  · rw [if_neg hT, if_neg hO, if_neg hO, if_neg hT]
    exact .some ⟨SameMerge.refl _, rfl⟩

private theorem entry_swap (h : ∀ o t, O.byID.lookup id = some o → T.byID.lookup id = some t →
      Swaps (B.byID.lookup id) (some o) (some t)) : EntrySwaps B O T id := by
  cases hO : O.byID.lookup id with
  | none => exact entry_swap_absent (AList.lookup_eq_none.1 hO)
  | some o =>
    cases hT : T.byID.lookup id with
    | none =>
      exact rel_symm (fun _ _ hab => ⟨hab.1.symm, hab.2.symm⟩)
        (entry_swap_absent (AList.lookup_eq_none.1 hT))
    | some t => exact entry_swap_present hO hT (h o t hO hT)

end Entries

/-- The entries that two lists share merge the same in both orders. -/
private def EntriesSwap (base ours theirs : Option Json) : Prop :=
  ∀ B O T, indexOf base = some B → indexOf ours = some O → indexOf theirs = some T →
    ∀ id o t, O.byID.lookup id = some o → T.byID.lookup id = some t →
      Swaps (B.byID.lookup id) (some o) (some t)

private theorem EntriesSwap.symm (h : EntriesSwap base ours theirs) :
    EntriesSwap base theirs ours :=
  fun B O T hB hO hT id o t ho ht => (h B T O hB hT hO id t o ht ho).symm

private theorem lists_swap_of_some {r : Json} (h : EntriesSwap base ours theirs)
    (hr : mergeMetadataLists base ours theirs = some r) :
    ∃ r', mergeMetadataLists base theirs ours = some r' ∧ SameMerge (some r) (some r') := by
  obtain ⟨B, O, T, hB, hO, hT, hall, rfl⟩ := listsVia_eq_some_iff.1 hr
  have hswap : ∀ id, EntrySwaps B O T id := fun id => entry_swap (h B O T hB hO hT id)
  have hall' : ∀ id, (entryOutcome mergeMetadataValues B T O id).isSome = true := fun id =>
    (rel_isSome (hswap id)).symm.trans (hall id)
  refine ⟨_, listsVia_eq_some_iff.2 ⟨B, T, O, hB, hT, hO, hall', rfl⟩, ?_⟩
  rw [← values_mergedEntries, ← values_mergedEntries]
  have hjoin : ∀ id, SameOutcome (entryOutcome mergeMetadataValues B O T id).join
      (entryOutcome mergeMetadataValues B T O id).join := by
    intro id
    have hid := hswap id
    unfold EntrySwaps at hid
    generalize entryOutcome mergeMetadataValues B O T id = x at hid ⊢
    generalize entryOutcome mergeMetadataValues B T O id = y at hid ⊢
    cases hid with
    | some h => exact h
    | none => exact ⟨SameMerge.refl _, rfl⟩
  refine .list (fun id => ?_) fun id => ?_
  · rw [← AList.lookup_isSome, ← AList.lookup_isSome, lookup_mergedEntries,
      lookup_mergedEntries, (hjoin id).2]
  · rw [lookup_mergedEntries, lookup_mergedEntries]
    exact (hjoin id).1

private theorem lists_swap (h : EntriesSwap base ours theirs) :
    Rel (fun r r' => SameMerge (some r) (some r'))
      (mergeMetadataLists base ours theirs) (mergeMetadataLists base theirs ours) := by
  refine rel_of_some (fun r => lists_swap_of_some h) fun r' hr' => ?_
  obtain ⟨r, hr, _⟩ := lists_swap_of_some h.symm hr'
  exact ⟨r, hr⟩

/-! ## Objects, the sides swapped -/

private theorem unchanged_swap (heven : ¬LopsidedKey key base (some o) theirs)
    (hours : base.isSome → jsonEqual (some o) base = false)
    (htheirs : jsonEqual theirs base) (hpresent : base.isSome = theirs.isSome) :
    ∃ v, mergeMetadataMember key base (some o) theirs = some v ∧
      SameMember key (some o) (some (v.getD .null)) := by
  rcases memberVia_cases mergeMetadataValues key base (some o) theirs with
    hv | ⟨rfl, v, hlater, hv⟩ | ⟨-, hcounter, v, hdelta, hv⟩
  · rw [mergeMetadataMember, hv]
    by_cases hsame : jsonEqual (some o) base = true
    · have heq : SameMerge (some o) theirs :=
        .equal (jsonEqual_trans hsame (jsonEqual_symm htheirs))
      exact ⟨theirs, valuesVia_of_ours_unchanged _ hsame, .value heq.getD_null⟩
    · exact ⟨some o, valuesVia_of_theirs_unchanged _ (Bool.eq_false_iff.2 hsame) htheirs,
        .value (SameMerge.refl _)⟩
  · refine ⟨v, hv, ?_⟩
    simp only [laterTime, Option.bind_eq_bind, Option.bind_eq_some_iff,
      Option.some.injEq] at hlater
    obtain ⟨mine, hmine, their, htheir, rfl⟩ := hlater
    cases theirs with
    | none => cases htheir
    | some t =>
      cases base with
      | none => cases hpresent
      | some b =>
        have hback : ¬mine < their := fun hlt =>
          heven (.time (hours rfl) htheirs hmine htheir hlt)
        by_cases hlt : their < mine
        · rw [if_pos hlt]
          exact .value (SameMerge.refl _)
        · rw [if_neg hlt]
          have heq : mine = their := by omega
          subst heq
          exact .time hmine htheir
  · have heq : v = o := by
      by_contra hne
      cases theirs with
      | none =>
        cases base with
        | none => exact heven (.added hcounter hdelta hne)
        | some b => cases hpresent
      | some t =>
        cases base with
        | none => cases hpresent
        | some b => exact heven (.counter hcounter (hours rfl) htheirs hdelta hne)
    subst heq
    exact ⟨some v, hv, .value (SameMerge.refl _)⟩

/-- The two views of one key. -/
def KeySwaps (key : String) (base ours theirs : Option Json) : Prop :=
  Rel (SameChange key ours theirs) (keyChange mergeMetadataValues key base ours theirs)
    (keyChange mergeMetadataValues key base theirs ours)

theorem KeySwaps.symm (h : KeySwaps key base ours theirs) : KeySwaps key base theirs ours :=
  rel_symm (fun _ _ => SameChange.symm) h

private theorem key_swap_added (heven : ¬LopsidedKey key none theirs none) :
    KeySwaps key none none theirs := by
  unfold KeySwaps
  cases theirs with
  | none => exact .some (.value (SameMerge.refl _))
  | some t =>
    obtain ⟨v, hv, hsame⟩ := unchanged_swap heven nofun rfl rfl
    rw [keyChange_of_changed (fun h => by cases h) (.inl rfl), ← mergeMetadataMember, hv]
    exact .some hsame

private theorem key_swap_unchanged (hours : jsonEqual (some b) ours)
    (heven : ¬LopsidedKey key (some b) theirs ours) : KeySwaps key (some b) ours theirs := by
  unfold KeySwaps
  rw [keyChange_of_unchanged hours]
  by_cases htheirs : jsonEqual (some b) theirs = true
  · rw [keyChange_of_unchanged htheirs]
    exact .some (.value (.equal (jsonEqual_trans (jsonEqual_symm htheirs) hours)))
  rw [Bool.not_eq_true] at htheirs
  cases theirs with
  | none =>
    -- theirs removed what ours left alone: a list must still be indexed
    have hb : emptyMember (some b) = false := Bool.eq_false_iff.2 fun hempty =>
      Bool.eq_false_iff.1 htheirs (jsonEqual_iff.2 (Or.inr ⟨hempty, rfl⟩))
    have hsame : some b = ours := eq_of_jsonEqual hours hb
    subst hsame
    rw [keyChange_of_removed htheirs]
    by_cases hlist : jsonKind (some b) = .array
    · cases hindex : indexOf (some b) with
      | none => exact absurd (.list hlist hindex) heven
      | some B =>
        rw [if_pos ⟨hlist, hlist⟩, ← mergeMetadataLists, lists_drop hindex]
        exact .some (.value (.equal rfl))
    · rw [if_neg fun h => hlist h.1, if_neg (by simp)]
      exact .some (.value (SameMerge.refl _))
  | some t =>
    have hchanged : jsonEqual (some t) (some b) = false := (jsonEqual_comm _ _).trans htheirs
    cases ours with
    | none =>
      have hb : emptyMember (some b) = true :=
        emptyMember_of_jsonEqual (jsonEqual_symm hours) rfl
      refine absurd (.absent hb (Bool.eq_false_iff.2 fun hempty => ?_)) heven
      exact Bool.eq_false_iff.1 htheirs (jsonEqual_iff.2 (Or.inr ⟨hb, hempty⟩))
    | some o =>
      obtain ⟨v, hv, hsame⟩ := unchanged_swap heven (fun _ => hchanged) (jsonEqual_symm hours) rfl
      rw [keyChange_of_changed (fun _ => htheirs) (.inr rfl), ← mergeMetadataMember, hv]
      exact .some hsame

private theorem key_swap_present (hours : base.isSome → jsonEqual base (some o) = false)
    (htheirs : base.isSome → jsonEqual base (some t) = false)
    (h : Swaps base (some o) (some t)) : KeySwaps key base (some o) (some t) := by
  unfold KeySwaps
  rw [keyChange_of_changed hours (.inr rfl), keyChange_of_changed htheirs (.inr rfl)]
  exact rel_map (fun _ _ hsame => hsame) (member_swap key h)

private theorem key_swap_removed (hours : jsonEqual (some b) none = false)
    (htheirs : jsonEqual (some b) (some t) = false) : KeySwaps key (some b) none (some t) := by
  unfold KeySwaps
  rw [keyChange_of_removed hours, keyChange_of_dropped htheirs]
  split
  · refine rel_map (fun _ _ hsame => SameMember.value hsame) (lists_swap ?_)
    intro B O T _ hO _ id o t ho _
    -- an absent list has no entry that theirs could also have
    rw [indexOf_of_empty rfl hO] at ho
    cases ho
  · rw [if_pos]
    · exact .none
    · refine Bool.and_eq_true_iff.2 ⟨rfl, bne_iff_ne.2 fun heq => ?_⟩
      rw [heq, jsonEqual_refl] at htheirs
      cases htheirs

/-- The two views of a key that is not lopsided agree. -/
private theorem key_swap (heven : ¬LopsidedKey key base ours theirs)
    (heven' : ¬LopsidedKey key base theirs ours)
    (h : ∀ o t, ours = some o → theirs = some t → Swaps base (some o) (some t)) :
    KeySwaps key base ours theirs := by
  cases base with
  | none =>
    cases ours with
    | none => exact key_swap_added heven'
    | some o =>
      cases theirs with
      | none => exact (key_swap_added heven).symm
      | some t => exact key_swap_present nofun nofun (h o t rfl rfl)
  | some b =>
    by_cases hours : jsonEqual (some b) ours = true
    · exact key_swap_unchanged hours heven'
    by_cases htheirs : jsonEqual (some b) theirs = true
    · exact (key_swap_unchanged htheirs heven).symm
    rw [Bool.not_eq_true] at hours htheirs
    cases ours with
    | none =>
      cases theirs with
      | none =>
        unfold KeySwaps
        rw [keyChange_of_removed hours, if_neg (by simp [jsonKind])]
        exact .some (.value (SameMerge.refl _))
      | some t => exact key_swap_removed hours htheirs
    | some o =>
      cases theirs with
      | none => exact (key_swap_removed htheirs hours).symm
      | some t => exact key_swap_present (fun _ => hours) (fun _ => htheirs) (h o t rfl rfl)

/-- The keys of two objects agree in the two views. -/
def KeysSwap (base ours theirs : Option Json) : Prop :=
  ∀ B O T, unmarshalFields base = some B → unmarshalFields ours = some O →
    unmarshalFields theirs = some T →
    ∀ key, KeySwaps key (B.lookup key) (O.lookup key) (T.lookup key)

private theorem objects_swap_of_some {r : Json} (h : KeysSwap base ours theirs)
    (hr : mergeMetadataObjects base ours theirs = some r) :
    ∃ r', mergeMetadataObjects base theirs ours = some r' ∧ SameMerge (some r) (some r') := by
  obtain ⟨B, O, T, hB, hO, hT, ⟨fields, rfl⟩, hkeys⟩ := objectsVia_eq_some hr
  have hsome : ∀ key, (keyChange mergeMetadataValues key (B.lookup key) (T.lookup key)
      (O.lookup key)).isSome = true := by
    intro key
    obtain ⟨c, hc, _⟩ := hkeys key
    rw [← rel_isSome (h B O T hB hO hT key), hc]
    rfl
  obtain ⟨r', hr'⟩ := objectsVia_isSome hB hT hO hsome
  refine ⟨r', hr', ?_⟩
  obtain ⟨B', T', O', hB', hT', hO', ⟨fields', rfl⟩, hkeys'⟩ := objectsVia_eq_some hr'
  cases hB.symm.trans hB'
  cases hO.symm.trans hO'
  cases hT.symm.trans hT'
  refine .object rfl rfl fun key => ?_
  obtain ⟨c, hc, hvalue⟩ := hkeys key
  obtain ⟨c', hc', hvalue'⟩ := hkeys' key
  have hkey := h B O T hB hO hT key
  unfold KeySwaps at hkey
  rw [hc, hc'] at hkey
  cases hkey with
  | some hsame =>
    unfold SameChange at hsame
    rw [← hvalue, ← hvalue'] at hsame
    exact hsame

private theorem objects_swap (h : KeysSwap base ours theirs) :
    Rel (fun r r' => SameMerge (some r) (some r')) (mergeMetadataObjects base ours theirs)
      (mergeMetadataObjects base theirs ours) := by
  refine rel_of_some (fun r => objects_swap_of_some h) fun r' hr' => ?_
  obtain ⟨r, hr, _⟩ := objects_swap_of_some
    (fun B O T hB hO hT key => (h B T O hB hT hO key).symm) hr'
  exact ⟨r, hr⟩

/-! ## Values, the sides swapped -/

private theorem isNumber_congr {v w : Option Json} (h : jsonEqual v w) :
    isNumber v = isNumber w := by
  have hempty : ∀ {u : Option Json}, emptyMember u = true → isNumber u = false := by
    intro u hu
    rcases emptyMember_cases hu with hvalue | rfl | rfl
    · unfold isNumber
      split
      · cases hvalue
      · rfl
    · rfl
    · rfl
  rcases jsonEqual_iff.1 h with rfl | ⟨hv, hw⟩
  · rfl
  · rw [hempty hv, hempty hw]

private theorem values_swap (heven : ¬Uneven base ours theirs)
    (h : ∀ b o t, depthOf b < depth₃ base ours theirs → depthOf o < depth₃ base ours theirs →
      depthOf t < depth₃ base ours theirs → ¬Uneven b o t → Swaps b o t) :
    Swaps base ours theirs := by
  unfold Swaps
  rw [mergeMetadataValues_eq base ours theirs, mergeMetadataValues_eq base theirs ours]
  by_cases hours : jsonEqual ours base = true
  · rw [valuesVia_of_ours_unchanged _ hours]
    by_cases htheirs : jsonEqual theirs base = true
    · rw [valuesVia_of_ours_unchanged _ htheirs]
      exact .some (.equal (jsonEqual_trans htheirs (jsonEqual_symm hours)))
    · rw [valuesVia_of_theirs_unchanged _ (Bool.eq_false_iff.2 htheirs) hours]
      exact .some (SameMerge.refl _)
  rw [Bool.not_eq_true] at hours
  by_cases htheirs : jsonEqual theirs base = true
  · rw [valuesVia_of_theirs_unchanged _ hours htheirs,
      valuesVia_of_ours_unchanged _ htheirs]
    exact .some (SameMerge.refl _)
  rw [Bool.not_eq_true] at htheirs
  have hboth : BothChanged base ours theirs := ⟨hours, htheirs⟩
  obtain ⟨hb, ho, ht⟩ := depth₃_le base ours theirs
  have hpos : 0 < depth₃ base ours theirs := depth₃_pos hours
  rw [valuesVia_of_changed _ hours htheirs, valuesVia_of_changed _ htheirs hours]
  by_cases hobject : AllFit .object base ours theirs
  · rw [if_pos hobject, if_pos hobject.swap]
    refine rel_map (fun _ _ hsame => hsame) (objects_swap fun B O T hB hO hT key => ?_)
    refine key_swap (fun hlop => heven (.here key hboth hobject hB hO hT (.inl hlop)))
      (fun hlop => heven (.here key hboth hobject hB hO hT (.inr hlop))) ?_
    intro o t hO' hT'
    refine h _ _ _ (depth_field_lt hB hb hpos key)
      (hO' ▸ depth_field_lt hO ho hpos key) (hT' ▸ depth_field_lt hT ht hpos key) ?_
    exact fun hsub => heven (.key key hboth hobject hB hO hT hO' hT' hsub)
  have hobject' : ¬AllFit .object base theirs ours := fun hfit => hobject hfit.swap
  rw [if_neg hobject, if_neg hobject']
  by_cases harray : AllFit .array base ours theirs
  · rw [if_pos harray, if_pos harray.swap]
    refine rel_map (fun _ _ hsame => hsame) (lists_swap fun B O T hB hO hT id o t hO' hT' => ?_)
    refine h _ _ _ (depth_entry_lt_bound hB hb hpos id)
      (hO' ▸ depth_entry_lt_bound hO ho hpos id)
      (hT' ▸ depth_entry_lt_bound hT ht hpos id) ?_
    exact fun hsub => heven (.entry id hboth harray hB hO hT hO' hT' hsub)
  have harray' : ¬AllFit .array base theirs ours := fun hfit => harray hfit.swap
  rw [if_neg harray, if_neg harray', jsonEqual_comm ours theirs]
  by_cases hsame : jsonEqual theirs ours = true
  · rw [isNumber_congr hsame]
    split
    · exact .some (.equal (jsonEqual_symm hsame))
    · exact .none
  · rw [if_neg fun hboth => hsame hboth.1, if_neg fun hboth => hsame hboth.1]
    exact .none

/-- Without a lopsided key the order of the writers does not matter. -/
theorem swaps_of_even (heven : ¬Uneven base ours theirs) : Swaps base ours theirs := by
  induction base, ours, theirs using depth₃_induction with
  | _ base ours theirs ih => exact values_swap heven ih

end Flow.Ports.MetadataMerge
