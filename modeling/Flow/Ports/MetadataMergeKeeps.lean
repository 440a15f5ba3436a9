import Flow.Ports.MetadataMergeCases

/-!
# A merge keeps both sides' changes at every depth

`KeepsBoth base ours theirs r` says what a conflict-free merge is for, whatever
computes it: a value only one side changed is that side's, a value both changed is the
same change or a container whose keys, or entries, again keep both sides' changes.
`KeepsMember` adds what a key's name changes about it: `updatedAt` is the later time
and an additive counter is theirs plus ours' delta.

`Clash base ours theirs` says where the merge must refuse: somewhere below, both sides
changed a value to different ones that are not two containers of one shape, or one
side dropped what the other changed.  An emptied container is no such drop: it has
lost its keys or entries, one by one, and an absent membership list is the empty list.
-/

namespace Flow.Ports.MetadataMerge

open List Option Flow.Verified Keyed Bool

/-! ## What a merge is for -/

structure BothChanged (base ours theirs : Option Json) : Prop where
  ours : jsonEqual ours base = false
  theirs : jsonEqual theirs base = false

mutual

/-- The result keeps what each side changed. -/
inductive KeepsBoth : Option Json → Option Json → Option Json → Option Json → Prop
  | theirs {base ours theirs r : Option Json} :
      jsonEqual ours base = true → jsonEqual r theirs = true →
      KeepsBoth base ours theirs r
  | ours {base ours theirs r : Option Json} :
      jsonEqual ours base = false → jsonEqual theirs base = true →
      jsonEqual r ours = true → KeepsBoth base ours theirs r
  | agreed {base ours theirs r : Option Json} :
      BothChanged base ours theirs → jsonEqual theirs ours = true →
      jsonEqual r ours = true → KeepsBoth base ours theirs r
  | object {base ours theirs r : Option Json} {B O T R : Fields} :
      BothChanged base ours theirs →
      unmarshalFields base = some B → unmarshalFields ours = some O →
      unmarshalFields theirs = some T → unmarshalFields r = some R →
      (∀ key, KeepsMember key (B.lookup key) (O.lookup key) (T.lookup key)
        (R.lookup key)) →
      (∀ key, key ∉ O → key ∉ T → key ∉ R) →
      KeepsBoth base ours theirs r
  | list {base ours theirs : Option Json} {B O T : Index} {R : Entries} :
      BothChanged base ours theirs →
      indexOf base = some B → indexOf ours = some O → indexOf theirs = some T →
      (∀ id, KeepsBoth (B.byID.lookup id) (O.byID.lookup id) (T.byID.lookup id)
        (R.lookup id)) →
      (∀ id, id ∉ O.byID → id ∉ T.byID → id ∉ R) →
      KeepsBoth base ours theirs (some (.array (R.entries.map Sigma.snd)))

/-- The same for the value of a key, whose name may say how it merges. -/
inductive KeepsMember :
    String → Option Json → Option Json → Option Json → Option Json → Prop
  | value {key : String} {base ours theirs r : Option Json} :
      KeepsBoth base ours theirs r → KeepsMember key base ours theirs r
  | time {base ours theirs r : Option Json} {mine their : Int} :
      (base.isSome = true → jsonEqual base ours = false) →
      unmarshalTime ours = some mine → unmarshalTime theirs = some their →
      r = (if their < mine then ours else theirs) →
      KeepsMember "updatedAt" base ours theirs r
  | counter {key : String} {base ours theirs : Option Json} {before mine their : Int} :
      key ∈ additiveCounters → (base.isSome = true → jsonEqual base ours = false) →
      count base = some before → count ours = some mine → count theirs = some their →
      before ≤ mine →
      KeepsMember key base ours theirs
        (some (.number (JsonNumber.formatInt (their + (mine - before)))))

end

/-! ## Where a merge must refuse -/

mutual

/-- The two sides' changes cannot both be kept. -/
inductive Clash : Option Json → Option Json → Option Json → Prop
  | value {base ours theirs : Option Json} :
      BothChanged base ours theirs → jsonEqual theirs ours = false →
      ¬AllFit .object base ours theirs → ¬AllFit .array base ours theirs →
      Clash base ours theirs
  | key {base ours theirs : Option Json} {B O T : Fields} (key : String) :
      BothChanged base ours theirs → AllFit .object base ours theirs →
      unmarshalFields base = some B → unmarshalFields ours = some O →
      unmarshalFields theirs = some T →
      KeyClash key (B.lookup key) (O.lookup key) (T.lookup key) →
      Clash base ours theirs
  | entry {base ours theirs : Option Json} {B O T : Index} (id : Identity) :
      BothChanged base ours theirs → AllFit .array base ours theirs →
      indexOf base = some B → indexOf ours = some O → indexOf theirs = some T →
      EntryClash (B.byID.lookup id) (O.byID.lookup id) (T.byID.lookup id) →
      Clash base ours theirs

/-- A key one side removed and the other changed, unless it is a list in
base and in the other; or one that a side has and whose values clash. -/
inductive KeyClash : String → Option Json → Option Json → Option Json → Prop
  | removed_by_ours {key : String} {b t : Json} :
      emptyMember (some b) = false → jsonEqual (some t) (some b) = false →
      ¬(jsonKind (some b) = .array ∧ jsonKind (some t) = .array) →
      KeyClash key (some b) none (some t)
  | removed_by_theirs {key : String} {b o : Json} :
      emptyMember (some b) = false → jsonEqual (some o) (some b) = false →
      ¬(jsonKind (some b) = .array ∧ jsonKind (some o) = .array) →
      KeyClash key (some b) (some o) none
  | nested {key : String} {base ours theirs : Option Json} :
      ¬(ours = none ∧ theirs = none) →
      (key = "updatedAt" → laterTime ours theirs = none) →
      (key ∈ additiveCounters → addDelta base ours theirs = none) →
      Clash base ours theirs → KeyClash key base ours theirs

/-- An entry one side removed and the other changed, or two different entries
whose values clash. -/
inductive EntryClash : Option Json → Option Json → Option Json → Prop
  | removed_by_ours {b t : Json} :
      jsonEqual (some t) (some b) = false → EntryClash (some b) none (some t)
  | removed_by_theirs {b o : Json} :
      jsonEqual (some o) (some b) = false → EntryClash (some b) (some o) none
  | nested {base : Option Json} {o t : Json} :
      jsonEqual (some o) (some t) = false → Clash base (some o) (some t) →
      EntryClash base (some o) (some t)

end

/-! ## What the merge returns keeps both sides' changes -/

section

variable {base ours theirs v r : Option Json}

/-- What theirs left alone is ours'. -/
private theorem KeepsBoth.of_unchanged (htheirs : jsonEqual theirs base)
    (hr : jsonEqual r ours) : KeepsBoth base ours theirs r := by
  by_cases hours : jsonEqual ours base = true
  · exact .theirs hours (jsonEqual_trans hr (jsonEqual_trans hours (jsonEqual_symm htheirs)))
  · exact .ours (eq_false_iff.2 hours) htheirs hr

private theorem KeepsBoth.of_same (hsame : jsonEqual theirs ours)
    (hr : jsonEqual r ours) : KeepsBoth base ours theirs r := by
  by_cases hours : jsonEqual ours base = true
  · exact .theirs hours (jsonEqual_trans hr (jsonEqual_symm hsame))
  · refine .agreed ⟨eq_false_iff.2 hours, eq_false_iff.2 fun htheirs => ?_⟩ hsame hr
    exact hours (jsonEqual_trans (jsonEqual_symm hsame) htheirs)

private theorem KeepsBoth.getD_null (h : KeepsBoth base ours theirs v) :
    KeepsBoth base ours theirs (some (v.getD .null)) := by
  have hnull : ∀ {w : Option Json}, jsonEqual v w = true →
      jsonEqual (some (v.getD .null)) w = true := by
    intro w hw
    cases v with
    | some v => exact hw
    | none => exact jsonEqual_trans (jsonEqual_iff.2 (Or.inr ⟨rfl, rfl⟩)) hw
  cases h with
  | theirs ho hr => exact .theirs ho (hnull hr)
  | ours ho ht hr => exact .ours ho ht (hnull hr)
  | agreed hboth heq hr => exact .agreed hboth heq (hnull hr)
  | object hboth hB hO hT hR hkeys hfresh =>
    refine .object hboth hB hO hT ?_ hkeys hfresh
    cases v <;> exact hR
  | list hboth hB hO hT hids hfresh => exact .list hboth hB hO hT hids hfresh

end

/-- The merge of values nested less than `d` deep keeps both sides' changes. -/
private def SoundBelow (d : Nat) : Prop :=
  ∀ base ours theirs r, depthOf base < d → depthOf ours < d → depthOf theirs < d →
    mergeMetadataValues base ours theirs = some r → KeepsBoth base ours theirs r

variable {id : Identity} {e : Option Json} {key : String}

section Sound

variable {d : Nat}

private theorem theirEntry_keeps (hsound : SoundBelow d) {B O T : Entries}
    (hb : depthOf (B.lookup id) < d) (ho : depthOf (O.lookup id) < d)
    (ht : depthOf (T.lookup id) < d) (h : theirEntry mergeMetadataValues B O T id = some e) :
    KeepsBoth (B.lookup id) (O.lookup id) (T.lookup id) e := by
  have hmerged : ((mergeMetadataValues (B.lookup id) (O.lookup id) (T.lookup id)).map fun v =>
      some (v.getD .null)) = some e → KeepsBoth (B.lookup id) (O.lookup id) (T.lookup id) e := by
    intro hmerge
    obtain ⟨v, hv, rfl⟩ := map_eq_some_iff.1 hmerge
    exact KeepsBoth.getD_null (hsound _ _ _ v hb ho ht hv)
  revert h
  fun_cases theirEntry mergeMetadataValues B O T id with
  | case1 theirItem b hB hO htheirs =>
    rintro ⟨⟩
    rw [hB, hO]
    exact .of_unchanged htheirs (jsonEqual_refl _)
  | case2 => exact nofun
  | case3 theirItem b o hB hO hours =>
    intro h
    rw [← some.inj h, hB, hO]
    exact .theirs hours (jsonEqual_refl _)
  | case4 theirItem b o hB hO _ htheirs =>
    rintro ⟨⟩
    rw [hB, hO]
    exact .of_unchanged htheirs (jsonEqual_refl _)
  | case5 theirItem b o hB hO => exact fun h => hmerged (by rwa [hB, hO])
  | case6 theirItem o hB hO hsame =>
    intro h
    rw [← some.inj h, hB]
    exact .of_same (jsonEqual_symm hsame) (jsonEqual_symm hsame)
  | case7 theirItem o hB hO => exact fun h => hmerged (by rwa [hB, hO])
  | case8 theirItem hB hO =>
    intro h
    rw [← some.inj h, hB, hO]
    exact .theirs (jsonEqual_refl _) (jsonEqual_refl _)

private theorem ourEntry_keeps {B O T : Entries} (habsent : id ∉ T)
    (h : ourEntry B O T id = some e) :
    KeepsBoth (B.lookup id) (O.lookup id) (T.lookup id) e := by
  rw [AList.lookup_eq_none.2 habsent]
  revert h
  fun_cases ourEntry B O T id with
  | case1 hmem => exact absurd hmem habsent
  | case2 _ b hB hours =>
    rintro ⟨⟩
    rw [hB]
    exact .theirs hours (jsonEqual_refl _)
  | case3 => exact nofun
  | case4 _ hB =>
    rintro ⟨⟩
    rw [hB]
    exact .of_unchanged (jsonEqual_refl _) (jsonEqual_refl _)

private theorem entryOutcome_keeps (hsound : SoundBelow d) {B O T : Index}
    (hb : depthOf (B.byID.lookup id) < d) (ho : depthOf (O.byID.lookup id) < d)
    (ht : depthOf (T.byID.lookup id) < d) (h : entryOutcome mergeMetadataValues B O T id = some e) :
    KeepsBoth (B.byID.lookup id) (O.byID.lookup id) (T.byID.lookup id) e := by
  revert h
  fun_cases entryOutcome mergeMetadataValues B O T id with
  | case1 => exact theirEntry_keeps hsound hb ho ht
  | case2 hT => exact ourEntry_keeps hT
  | case3 hT hO =>
    -- both sides removed the entry, or nobody had it
    rintro ⟨⟩
    rw [AList.lookup_eq_none.2 hT, AList.lookup_eq_none.2 hO]
    exact .of_same (jsonEqual_refl _) (jsonEqual_refl _)

private theorem lists_keep (hsound : SoundBelow d) {base ours theirs : Option Json}
    (hb : depthOf base ≤ d) (ho : depthOf ours ≤ d) (ht : depthOf theirs ≤ d)
    (hpos : 0 < d) (hboth : BothChanged base ours theirs) {r : Json}
    (h : mergeMetadataLists base ours theirs = some r) :
    KeepsBoth base ours theirs (some r) := by
  obtain ⟨B, O, T, hB, hO, hT, hall, rfl⟩ := listsVia_eq_some_iff.1 h
  rw [← values_mergedEntries]
  refine .list hboth hB hO hT (fun id => ?_) fun id hout htout => ?_
  · rw [lookup_mergedEntries]
    obtain ⟨e, he⟩ := isSome_iff_exists.1 (hall id)
    rw [he]
    exact entryOutcome_keeps hsound (depth_entry_lt_bound hB hb hpos id)
      (depth_entry_lt_bound hO ho hpos id) (depth_entry_lt_bound hT ht hpos id) he
  · rw [← AList.lookup_eq_none, lookup_mergedEntries]
    unfold entryOutcome
    rw [if_neg htout, if_neg hout]
    rfl

private theorem member_keeps (hsound : SoundBelow d)
    {base ours theirs : Option Json} (hb : depthOf base < d) (ho : depthOf ours < d)
    (ht : depthOf theirs < d) (hchanged : base.isSome → jsonEqual base ours = false)
    {v : Option Json} (h : mergeMetadataMember key base ours theirs = some v) :
    KeepsMember key base ours theirs (some (v.getD .null)) := by
  rcases memberVia_cases mergeMetadataValues key base ours theirs with
    hv | ⟨rfl, w, hlater, hv⟩ | ⟨-, hcounter, w, hdelta, hv⟩
  · exact .value (KeepsBoth.getD_null (hsound _ _ _ v hb ho ht (hv.symm.trans h)))
  · cases hv.symm.trans h
    simp only [laterTime, bind_eq_bind, bind_eq_some_iff,
      some.injEq] at hlater
    obtain ⟨mine, hmine, their, htheir, rfl⟩ := hlater
    refine .time hchanged hmine htheir ?_
    cases ours with
    | none => cases hmine
    | some o =>
      cases theirs with
      | none => cases htheir
      | some t => split <;> rfl
  · cases hv.symm.trans h
    simp only [addDelta, bind_eq_bind, bind_eq_some_iff,
      ite_none_right_eq_some, some.injEq] at hdelta
    obtain ⟨before, hbefore, mine, hmine, their, htheir, ⟨_, hle, _, _⟩, rfl⟩ := hdelta
    exact .counter hcounter hchanged hbefore hmine htheir hle

private theorem key_keeps (hsound : SoundBelow d) {base ours theirs : Option Json}
    (hb : depthOf base < d) (ho : depthOf ours < d) (ht : depthOf theirs < d) {c : KeyChange Json}
    (h : keyChange mergeMetadataValues key base ours theirs = some c) :
    KeepsMember key base ours theirs (c.value theirs) := by
  have hpos : 0 < d := Nat.zero_lt_of_lt hb
  cases base with
  | none =>
    cases ours with
    | none =>
      cases h
      exact .value (.theirs (jsonEqual_refl _) (jsonEqual_refl _))
    | some o =>
      have hset : keyChange mergeMetadataValues key none (some o) theirs = _ :=
        keyChange_of_changed nofun (.inl rfl)
      obtain ⟨v, hv, rfl⟩ := map_eq_some_iff.1 (hset.symm.trans h)
      exact member_keeps hsound hb ho ht nofun hv
  | some b =>
    by_cases hkeep : jsonEqual (some b) ours = true
    · rw [keyChange_of_unchanged hkeep] at h
      cases h
      exact .value (.theirs (jsonEqual_symm hkeep) (jsonEqual_refl _))
    have hchanged : jsonEqual (some b) ours = false := eq_false_iff.2 hkeep
    have hours : jsonEqual ours (some b) = false := (jsonEqual_comm _ _).trans hchanged
    have hlists : ∀ {r : Json}, jsonEqual theirs (some b) = false →
        mergeMetadataLists (some b) ours theirs = some r →
        KeepsMember key (some b) ours theirs (some r) := fun htheirs hr =>
      .value (lists_keep hsound (Nat.le_of_lt hb) (Nat.le_of_lt ho) (Nat.le_of_lt ht) hpos
        ⟨hours, htheirs⟩ hr)
    cases ours with
    | none =>
      rw [keyChange_of_removed hchanged] at h
      split at h
      · rename_i hkinds
        obtain ⟨r, hr, rfl⟩ := map_eq_some_iff.1 h
        by_cases htheirs : jsonEqual theirs (some b) = true
        · have hsame : theirs = some b := eq_of_jsonEqual htheirs (by
            rw [← not_eq_true, ← jsonKind_eq_absent, hkinds.2]
            exact nofun)
          subst hsame
          obtain ⟨B, _, _, hB, _⟩ := listsVia_eq_some_iff.1 hr
          cases hr.symm.trans (lists_drop hB)
          exact .value (.ours hours htheirs rfl)
        · exact hlists (eq_false_iff.2 htheirs) hr
      · split at h
        · cases h
        · rename_i hother
          cases h
          cases theirs with
          | none => exact .value (.of_same (jsonEqual_refl _) (jsonEqual_refl _))
          | some t =>
            have hsame : t = b := by simpa using hother
            subst hsame
            exact .value (.of_unchanged (jsonEqual_refl _) (jsonEqual_refl _))
    | some o =>
      cases theirs with
      | none =>
        rw [keyChange_of_dropped hchanged, ite_none_right_eq_some] at h
        obtain ⟨hkinds, h⟩ := h
        obtain ⟨r, hr, rfl⟩ := map_eq_some_iff.1 h
        refine hlists (eq_false_iff.2 fun hnone => ?_) hr
        have hempty := jsonKind_eq_absent.2 (emptyMember_of_jsonEqual hnone rfl)
        rw [hkinds.1] at hempty
        cases hempty
      | some t =>
        rw [keyChange_of_changed (fun _ => hchanged) (.inr rfl)] at h
        obtain ⟨v, hv, rfl⟩ := map_eq_some_iff.1 h
        exact member_keeps hsound hb ho ht (fun _ => hchanged) hv

private theorem values_keep {base ours theirs r : Option Json}
    (hsound : SoundBelow (depth₃ base ours theirs))
    (h : mergeMetadataValues base ours theirs = some r) :
    KeepsBoth base ours theirs r := by
  rw [mergeMetadataValues_eq] at h
  by_cases hours : jsonEqual ours base = true
  · rw [valuesVia_of_ours_unchanged _ hours] at h
    cases h
    exact .theirs hours (jsonEqual_refl _)
  rw [not_eq_true] at hours
  by_cases htheirs : jsonEqual theirs base = true
  · rw [valuesVia_of_theirs_unchanged _ hours htheirs] at h
    cases h
    exact .ours hours htheirs (jsonEqual_refl _)
  rw [not_eq_true] at htheirs
  have hboth : BothChanged base ours theirs := ⟨hours, htheirs⟩
  obtain ⟨hb, ho, ht⟩ := depth₃_le base ours theirs
  have hpos : 0 < depth₃ base ours theirs := depth₃_pos hours
  rw [valuesVia_of_changed _ hours htheirs] at h
  split at h
  · obtain ⟨r, hr, rfl⟩ := map_eq_some_iff.1 h
    obtain ⟨B, O, T, hB, hO, hT, ⟨fields, rfl⟩, hkeys⟩ := objectsVia_eq_some hr
    have hR : unmarshalFields (some (marshalMap fields)) =
        some (unmarshalMap (sortedMembers fields)) := rfl
    refine .object hboth hB hO hT hR (fun key => ?_) fun key hout htout => ?_
    · obtain ⟨c, hc, hvalue⟩ := hkeys key
      rw [← field_eq hR key, hvalue]
      exact key_keeps hsound (depth_field_lt hB hb hpos key)
        (depth_field_lt hO ho hpos key) (depth_field_lt hT ht hpos key) hc
    · obtain ⟨c, hc, hvalue⟩ := hkeys key
      rw [AList.lookup_eq_none.2 hout, AList.lookup_eq_none.2 htout] at hc
      rw [← AList.lookup_eq_none, ← field_eq hR key, hvalue, AList.lookup_eq_none.2 htout]
      exact keyChange_absent hc
  · split at h
    · obtain ⟨r, hr, rfl⟩ := map_eq_some_iff.1 h
      exact lists_keep hsound hb ho ht hpos hboth hr
    · rw [ite_none_right_eq_some, some.injEq] at h
      rw [← h.2]
      exact .agreed hboth h.1.1 (jsonEqual_refl _)

end Sound

/-- **Whatever the merge returns keeps both sides' changes.** -/
theorem keepsBoth_of_merge {base ours theirs r : Option Json}
    (h : mergeMetadataValues base ours theirs = some r) :
    KeepsBoth base ours theirs r := by
  induction base, ours, theirs using depth₃_induction generalizing r with
  | _ base ours theirs ih => exact values_keep (fun b o t r hb ho ht => ih b o t hb ho ht) h

/-! ## Where the sides clash the merge fails -/

theorem Clash.bothChanged {base ours theirs : Option Json} (h : Clash base ours theirs) :
    BothChanged base ours theirs := by
  cases h with
  | value hboth => exact hboth
  | key _ hboth => exact hboth
  | entry _ hboth => exact hboth

/-- Where the merge of two changed lists fails, so does the list merge. -/
private theorem lists_fail {base ours theirs : Option Json} (hboth : BothChanged base ours theirs)
    (hfit : AllFit .array base ours theirs) (h : mergeMetadataValues base ours theirs = none) :
    listsVia mergeMetadataValues base ours theirs = none := by
  rw [mergeMetadataValues_eq, valuesVia_of_changed _ hboth.ours hboth.theirs,
    if_neg (not_allFit_object hboth.ours hfit), if_pos hfit,
    map_eq_none_iff] at h
  exact h

/-- A key whose values do not merge fails, unless its name merges it. -/
private theorem keyChange_of_merge_none {base ours theirs : Option Json}
    (hboth : BothChanged base ours theirs) (hside : ¬(ours = none ∧ theirs = none))
    (htime : key = "updatedAt" → laterTime ours theirs = none)
    (hcounter : key ∈ additiveCounters → addDelta base ours theirs = none)
    (h : mergeMetadataValues base ours theirs = none) :
    keyChange mergeMetadataValues key base ours theirs = none := by
  have hours : jsonEqual base ours = false := (jsonEqual_comm _ _).trans hboth.ours
  have hmember : memberVia mergeMetadataValues key base ours theirs = none := by
    rcases memberVia_cases mergeMetadataValues key base ours theirs with
      hv | ⟨hkey, v, hlater, -⟩ | ⟨-, hkey, v, hdelta, -⟩
    · exact hv.trans h
    · cases (htime hkey).symm.trans hlater
    · cases (hcounter hkey).symm.trans hdelta
  cases ours with
  | none =>
    cases base with
    | none => cases hours
    | some b =>
      cases theirs with
      | none => exact absurd ⟨rfl, rfl⟩ hside
      | some t =>
        rw [keyChange_of_removed hours]
        split
        · rename_i hlists
          have hfit : AllFit .array (some b) none (some t) :=
            ⟨Or.inl hlists.1, Or.inr rfl, Or.inl hlists.2⟩
          rw [lists_fail hboth hfit h]
          rfl
        · refine if_pos (and_eq_true_iff.2 ⟨rfl, bne_iff_ne.2 fun heq => ?_⟩)
          rw [heq] at hboth
          cases (jsonEqual_refl _).symm.trans hboth.theirs
  | some o =>
    by_cases hpresent : base = none ∨ theirs.isSome = true
    · rw [keyChange_of_changed (fun _ => hours) hpresent, hmember]
      rfl
    · cases base with
      | none => exact absurd (.inl rfl) hpresent
      | some b =>
        cases theirs with
        | some t => exact absurd (.inr rfl) hpresent
        | none =>
          rw [keyChange_of_dropped hours]
          split
          · rename_i hlists
            have hfit : AllFit .array (some b) (some o) none :=
              ⟨Or.inl hlists.1, Or.inl hlists.2, Or.inr rfl⟩
            rw [lists_fail hboth hfit h]
            rfl
          · rfl

mutual

theorem merge_of_clash : ∀ {base ours theirs : Option Json}, Clash base ours theirs →
      mergeMetadataValues base ours theirs = none
  | _, _, _, .value hboth hne hobject harray => by
      rw [mergeMetadataValues_eq, valuesVia_of_changed _ hboth.ours hboth.theirs,
        if_neg hobject, if_neg harray, if_neg (by simp [hne])]
  | _, _, _, .key key hboth hfit hB hO hT hclash => by
      rw [mergeMetadataValues_eq, valuesVia_of_changed _ hboth.ours hboth.theirs,
        if_pos hfit, map_eq_none_iff, eq_none_iff_forall_ne_some]
      intro r hr
      obtain ⟨B', O', T', hB', hO', hT', _, hkeys⟩ := objectsVia_eq_some hr
      obtain ⟨c, hc, _⟩ := hkeys key
      rw [← some.inj (hB.symm.trans hB'), ← some.inj (hO.symm.trans hO'),
        ← some.inj (hT.symm.trans hT'), keyChange_of_clash hclash] at hc
      cases hc
  | _, _, _, .entry id hboth hfit hB hO hT hclash => by
      rw [mergeMetadataValues_eq, valuesVia_of_changed _ hboth.ours hboth.theirs,
        if_neg (not_allFit_object hboth.ours hfit), if_pos hfit, map_eq_none_iff,
        eq_none_iff_forall_ne_some]
      intro r hr
      obtain ⟨B', O', T', hB', hO', hT', hall, _⟩ := listsVia_eq_some_iff.1 hr
      have hsome := hall id
      rw [← some.inj (hB.symm.trans hB'), ← some.inj (hO.symm.trans hO'),
        ← some.inj (hT.symm.trans hT'), entryOutcome_of_clash _ _ _ rfl rfl rfl
          hclash] at hsome
      cases hsome

theorem keyChange_of_clash : ∀ {key : String} {base ours theirs : Option Json},
      KeyClash key base ours theirs →
      keyChange mergeMetadataValues key base ours theirs = none
  | _, _, _, _, .removed_by_ours (b := b) (t := t) hb ht hlists => by
      have hkeep : jsonEqual (some b) none = false := by
        simp [jsonEqual, hb]
      have hne : (some t != some b) = true := by
        rw [bne_iff_ne]
        intro heq
        rw [heq, jsonEqual_refl] at ht
        cases ht
      unfold keyChange keyVia
      simp [hkeep, hlists, hne]
  | _, _, _, _, .removed_by_theirs hb ho hlists => by
      rw [jsonEqual_comm] at ho
      unfold keyChange keyVia
      simp [ho, hlists]
  | _, _, _, _, .nested hside htime hcounter hclash =>
    keyChange_of_merge_none hclash.bothChanged hside htime hcounter
      (merge_of_clash hclash)

theorem entryOutcome_of_clash : ∀ {id : Identity} (B O T : Index) {base ours theirs : Option Json},
      B.byID.lookup id = base → O.byID.lookup id = ours → T.byID.lookup id = theirs →
      EntryClash base ours theirs → entryOutcome mergeMetadataValues B O T id = none
  | id, _, _, T, _, _, _, hB, hO, hT, .removed_by_ours ht => by
      have hmem : id ∈ T.byID := AList.lookup_isSome.1 (by rw [hT]; rfl)
      unfold entryOutcome theirEntry
      simp [hmem, hB, hO, hT, ht]
  | id, _, O, T, _, _, _, hB, hO, hT, .removed_by_theirs ho => by
      have hout : id ∉ T.byID := AList.lookup_eq_none.1 hT
      have hmem : id ∈ O.byID := AList.lookup_isSome.1 (by rw [hO]; rfl)
      unfold entryOutcome ourEntry
      simp [hmem, hout, hB, hO, ho]
  | id, _, _, T, base, _, _, hB, hO, hT, .nested hne hclash => by
      have hmem : id ∈ T.byID := AList.lookup_isSome.1 (by rw [hT]; rfl)
      have hfail := merge_of_clash hclash
      have hboth := hclash.bothChanged
      unfold entryOutcome theirEntry
      cases base with
      | none => simp [hmem, hB, hO, hT, hne, hfail]
      | some b => simp [hmem, hB, hO, hT, hboth.ours, hboth.theirs, hfail]

end

end Flow.Ports.MetadataMerge
