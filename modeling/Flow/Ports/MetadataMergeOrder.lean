import Flow.Ports.MetadataMergeSymmetry
import Mathlib.Data.List.Induction

/-!
# When the order of the writers does matter

A lopsided key gives the two orders different members, and the difference
stays in the merged value: an object holds the member under its key, a list
holds the entry under its identity.  So where a merge succeeds in one order
at least, the orders agree exactly when no key is lopsided.

For the entries this needs that a merged entry is still found by its
identity.  Decoding takes any spelling of `id`, and a merge may drop the two
spellings that two sides kept; `plainIDs` says that only `id` is used.
-/

namespace Flow.Ports.MetadataMerge

open Flow.Verified Keyed
open Option (Rel)

variable {base ours theirs : Option Json} {key : String} {b o t : Json} {id : Identity}

/-! ## A lopsided key does matter -/

private theorem eq_of_sameMerge_number {n : JsonNumber} {v : Json}
    (h : SameMerge (some (.number n)) (some v)) : .number n = v := by
  have hnumber : emptyMember (some (.number n)) = false := rfl
  generalize hw : some v = w at h
  generalize hu : some (Json.number n) = u at h
  cases h with
  | equal heq =>
    rw [← hu, ← hw] at heq
    exact Option.some.inj (eq_of_jsonEqual heq hnumber)
  | object hV =>
    rw [← hu] at hV
    cases hV
  | list => cases hu

private theorem eq_null_of_time {v : Json} {instant : Int} {fields : Fields}
    (ht : unmarshalTime (some v) = some instant)
    (hf : unmarshalFields (some v) = some fields) : v = .null := by
  cases v with
  | null => rfl
  | string s =>
    by_cases hs : s = ""
    · subst hs
      cases ht
    · simp [unmarshalFields, emptyJSONValue, hs] at hf
  | bool b => cases ht
  | number n => cases ht
  | array items => cases ht
  | object members => cases ht

/-- The later of two different instants is not the same merge as the
earlier. -/
private theorem not_sameMember_time {mine their : Int}
    (hne : jsonEqual (some t) (some o) = false) (hmine : unmarshalTime (some o) = some mine)
    (htheir : unmarshalTime (some t) = some their) (hlt : mine < their) :
    ¬SameMember "updatedAt" (some t) (some o) := by
  intro h
  generalize hv : some t = v at h
  generalize hw : some o = w at h
  cases h with
  | time hv' hw' =>
    rw [← hv, htheir, Option.some.injEq] at hv'
    rw [← hw, hmine, Option.some.injEq] at hw'
    omega
  | value hsame =>
    cases hsame with
    | equal heq =>
      rw [← hv, ← hw, hne] at heq
      cases heq
    | object hV hW =>
      rw [← hv] at hV
      rw [← hw] at hW
      rw [eq_null_of_time htheir hV, eq_null_of_time hmine hW] at hne
      cases hne
    | list =>
      cases hv
      cases htheir

/-- A sum is the same merge as nothing but its own literal. -/
private theorem eq_of_sameMember_delta {v : Json} (hkey : key ∈ additiveCounters)
    (hdelta : addDelta base ours theirs = some v) (h : SameMember key (some v) (some o)) :
    v = o := by
  simp only [addDelta, Option.bind_eq_bind, Option.bind_eq_some_iff,
    Option.ite_none_right_eq_some, Option.some.injEq] at hdelta
  obtain ⟨before, _, mine, _, their, _, _, rfl⟩ := hdelta
  cases h with
  | value hsame => exact eq_of_sameMerge_number hsame
  | time => exact absurd hkey (by decide)

private theorem not_keySwaps_of_lopsided (h : LopsidedKey key base ours theirs) :
    ¬KeySwaps key base ours theirs := by
  intro hrel
  unfold KeySwaps at hrel
  cases h with
  | @list _ b hkind hindex =>
    have hb : jsonEqual (some b) none = false := by
      refine Bool.eq_false_iff.2 fun hempty => ?_
      have habsent := jsonKind_eq_absent.2 (emptyMember_of_jsonEqual (jsonEqual_symm hempty) rfl)
      rw [hkind] at habsent
      cases habsent
    have hfail : listsVia mergeMetadataValues (some b) none (some b) = none := by
      simp [listsVia, hindex]
    rw [keyChange_of_removed hb, if_pos ⟨hkind, hkind⟩, hfail,
      keyChange_of_unchanged (jsonEqual_refl _)] at hrel
    cases hrel
  | @absent _ b o hb ho =>
    have hne : jsonEqual (some b) (some o) = false := by
      refine Bool.eq_false_iff.2 fun heq => ?_
      rw [emptyMember_of_jsonEqual heq hb] at ho
      cases ho
    rw [keyChange_of_dropped hne, if_neg (by simp [jsonKind_eq_absent.2 hb]),
      keyChange_of_unchanged (jsonEqual_iff.2 (Or.inr ⟨hb, rfl⟩))] at hrel
    cases hrel
  | @time b o t mine their hours htheirs hmine htheir hlt =>
    have hset : memberVia mergeMetadataValues "updatedAt" (some b) (some o) (some t) =
        some (some t) := by
      simp [memberVia, laterTime, hmine, htheir, Int.not_lt.2 (Int.le_of_lt hlt)]
    rw [keyChange_of_changed (fun _ => (jsonEqual_comm _ _).trans hours) (.inr rfl), hset,
      keyChange_of_unchanged (jsonEqual_symm htheirs)] at hrel
    cases hrel with
    | some hsame =>
      refine not_sameMember_time (Bool.eq_false_iff.2 fun heq => ?_) hmine htheir hlt hsame
      rw [jsonEqual_trans (jsonEqual_symm heq) htheirs] at hours
      cases hours
  | @counter _ b o t v hkey hours htheirs hdelta hne =>
    rw [keyChange_of_changed (fun _ => (jsonEqual_comm _ _).trans hours) (.inr rfl),
      memberVia_counter hkey hdelta, keyChange_of_unchanged (jsonEqual_symm htheirs)] at hrel
    cases hrel with
    | some hsame => exact hne (eq_of_sameMember_delta hkey hdelta hsame)
  | @added _ o v hkey hdelta hne =>
    rw [keyChange_of_changed (fun h => by cases h) (.inl rfl),
      memberVia_counter hkey hdelta] at hrel
    cases hrel with
    | some hsame => exact hne (eq_of_sameMember_delta hkey hdelta hsame)

/-- **At a lopsided key the two orders disagree.** -/
theorem lopsided_disagrees (h : LopsidedKey key base ours theirs) :
    ¬Rel (SameChange key ours theirs) (keyChange mergeMetadataValues key base ours theirs)
      (keyChange mergeMetadataValues key base theirs ours) :=
  not_keySwaps_of_lopsided h

/-- A list of lists that one side removes. -/
theorem lopsided_removal :
    let list := Json.array [.array []]
    ¬Rel (SameChange "k" none (some list))
      (keyChange mergeMetadataValues "k" (some list) none (some list))
      (keyChange mergeMetadataValues "k" (some list) (some list) none) :=
  lopsided_disagrees (.list rfl (by decide))

/-! ## Entries keep their identity -/

mutual

/-- No object of the value has a key that decodes as `id` and is spelled
otherwise. -/
def plainIDs : Json → Bool
  | .array items => plainItems items
  | .object members => plainMembers members
  | _ => true

def plainItems : List Json → Bool
  | [] => true
  | item :: items => plainIDs item && plainItems items

def plainMembers : List (String × Json) → Bool
  | [] => true
  | (name, value) :: members =>
    (name.toList.map Char.toLower != ['i', 'd'] || name == "id") && plainIDs value &&
      plainMembers members

end

private theorem plainItems_iff {items : List Json} :
    plainItems items ↔ ∀ item ∈ items, plainIDs item := by
  induction items with
  | nil => simp [plainItems]
  | cons item items ih => simp [plainItems, ih]

private theorem plainMembers_iff {members : List (String × Json)} :
    plainMembers members ↔ ∀ m ∈ members,
      (m.1.toList.map Char.toLower = ['i', 'd'] → m.1 = "id") ∧ plainIDs m.2 := by
  induction members with
  | nil => simp [plainMembers]
  | cons m members ih =>
    simp only [plainMembers, Bool.and_eq_true, ih, List.forall_mem_cons, Bool.or_eq_true,
      bne_iff_ne, beq_iff_eq, ← imp_iff_not_or]

private theorem mem_of_lookup {members : List (String × Json)} {v : Json}
    (h : (unmarshalMap members).lookup key = some v) : (key, v) ∈ members := by
  rw [lookup_unmarshalMap] at h
  have hmem := List.of_mem_dlookup h
  simp only [List.mem_map, List.mem_reverse, asEntry] at hmem
  obtain ⟨m, hm, heq⟩ := hmem
  cases heq
  exact hm

private theorem plainIDs_lookup {v : Json} {V : Fields} (hv : unmarshalFields (some v) = some V)
    (hplain : plainIDs v) {w : Json} (hw : V.lookup key = some w) : plainIDs w := by
  unfold unmarshalFields at hv
  split at hv
  · rename_i members heq
    cases heq
    cases hv
    exact (plainMembers_iff.1 hplain _ (mem_of_lookup hw)).2
  · split at hv
    · cases hv
      cases hw
    · cases hv

/-- A key decodes to the last member of that name. -/
private theorem lookup_eq_getLast (members : List (String × Json)) :
    (unmarshalMap members).lookup key =
      ((members.filter fun m => m.1 == key).map Prod.snd).getLast? := by
  induction members using List.reverseRecOn with
  | nil => rfl
  | append_singleton members m ih =>
    rw [unmarshalMap, List.foldl_append, ← unmarshalMap, List.filter_append, List.map_append]
    by_cases hkey : m.1 = key
    · subst hkey
      simp
    · simp [hkey, AList.lookup_insert_ne (Ne.symm hkey), ih]

private theorem field_of_entryID {members : List (String × Json)} {s : String}
    (hplain : plainMembers members) (h : entryID members = some s) :
    s ≠ "" ∧ field (some (.object members)) "id" = some (.string s) := by
  have hids : (members.filter fun m => m.1.toList.map Char.toLower == ['i', 'd']) =
      members.filter fun m => m.1 == "id" := by
    refine List.filter_congr fun m hm => Bool.eq_iff_iff.2 ?_
    rw [beq_iff_eq, beq_iff_eq]
    refine ⟨(plainMembers_iff.1 hplain m hm).1, fun hid => ?_⟩
    rw [hid]
    decide
  unfold entryID at h
  simp only [hids] at h
  split at h
  · rename_i text _ hlast
    rw [Option.ite_none_left_eq_some, Option.some.injEq] at h
    obtain ⟨hne, rfl⟩ := h
    exact ⟨hne, (lookup_eq_getLast members).trans hlast⟩
  · cases h

private theorem full_of_field {v w : Json} (h : field (some v) key = some w) :
    emptyMember (some v) = false ∧ ∃ members, v = .object members := by
  have hobject : ∃ members, v = .object members := by
    by_contra hnot
    unfold field unmarshalFields at h
    split at h <;> rename_i heq
    · split at heq
      · rename_i members hv
        exact hnot ⟨members, Option.some.inj hv⟩
      · rw [Option.ite_none_right_eq_some, Option.some.injEq] at heq
        rw [← heq.2] at h
        cases h
    · cases h
  obtain ⟨members, rfl⟩ := hobject
  refine ⟨Bool.eq_false_iff.2 fun hempty => ?_, members, rfl⟩
  rcases emptyMember_cases hempty with hvalue | hnil | hnil
  · cases hvalue
  · cases hnil
  · cases hnil
    cases h

/-- An entry is what its identity says: an object with that `id`, or the
scalar itself. -/
def HasIdentity : Identity → Json → Prop
  | .id s, item => s ≠ "" ∧ field (some item) "id" = some (.string s)
  | .value v, item => item = v ∧ (∀ members, v ≠ .object members) ∧ ∀ items, v ≠ .array items

private theorem hasIdentity_of_identity {item : Json} (hplain : plainIDs item)
    (h : identity item = some id) : HasIdentity id item := by
  cases item with
  | object members =>
    simp only [identity, Option.map_eq_some_iff] at h
    obtain ⟨s, hs, rfl⟩ := h
    exact field_of_entryID hplain hs
  | array items => cases h
  | null =>
    cases h
    exact ⟨rfl, nofun, nofun⟩
  | bool b =>
    cases h
    exact ⟨rfl, nofun, nofun⟩
  | number n =>
    cases h
    exact ⟨rfl, nofun, nofun⟩
  | string s =>
    cases h
    exact ⟨rfl, nofun, nofun⟩

/-- The same for a value that may be absent. -/
def Plain (v : Option Json) : Prop := ∀ j, v = some j → plainIDs j

private theorem plain_some {v : Json} (h : plainIDs v) : Plain (some v) := by
  intro j hj
  cases hj
  exact h

private theorem Plain.lookup {v : Option Json} {V : Fields} {w : Json} (h : Plain v)
    (hV : unmarshalFields v = some V) (hw : V.lookup key = some w) : Plain (some w) := by
  cases v with
  | none =>
    cases hV
    cases hw
  | some v => exact plain_some (plainIDs_lookup hV (h v rfl) hw)

private theorem entry_hasIdentity {v : Option Json} {idx : Index} {item : Json}
    (hplain : Plain v) (h : indexOf v = some idx) (hitem : idx.byID.lookup id = some item) :
    HasIdentity id item ∧ plainIDs item := by
  simp only [indexOf, Option.bind_eq_bind, Option.bind_eq_some_iff] at h
  obtain ⟨items, hitems, hidx⟩ := h
  obtain ⟨hmem, hid⟩ := index_holds hidx id item hitem
  have hitem : plainIDs item := by
    unfold unmarshalItems at hitems
    split at hitems
    · cases hitems
      exact plainItems_iff.1 (hplain _ rfl) item hmem
    · rw [Option.ite_none_right_eq_some, Option.some.injEq] at hitems
      rw [← hitems.2] at hmem
      cases hmem
  exact ⟨hasIdentity_of_identity hitem hid, hitem⟩

/-- A text both sides have is what the merge has. -/
private theorem keepsBoth_text {s : String} {r : Option Json} (hs : s ≠ "")
    (h : KeepsBoth base (some (.string s)) (some (.string s)) r) : r = some (.string s) := by
  have hfull : emptyMember (some (.string s)) = false := by
    simp [emptyMember, emptyJSONValue, hs]
  have heq : ∀ {w : Option Json}, jsonEqual w (some (.string s)) = true → w = some (.string s) :=
    fun h => (eq_of_jsonEqual (jsonEqual_symm h) hfull).symm
  cases h with
  | theirs _ h => exact heq h
  | ours _ _ h => exact heq h
  | agreed _ _ h => exact heq h
  | object _ _ hO => simp [unmarshalFields, emptyJSONValue, hs] at hO
  | list _ _ hO => simp [indexOf, unmarshalItems, emptyJSONValue, hs] at hO

private theorem keepsMember_id {s : String} {r : Option Json} (hs : s ≠ "")
    (h : KeepsMember "id" base (some (.string s)) (some (.string s)) r) :
    r = some (.string s) := by
  generalize hkey : "id" = name at h
  generalize hside : some (Json.string s) = side at h
  cases h with
  | value h =>
    subst hside
    exact keepsBoth_text hs h
  | time => exact absurd hkey (by decide)
  | counter hcounter =>
    rw [← hkey] at hcounter
    exact absurd hcounter (by decide)

/-- A merged entry has the identity of the entries it is merged from. -/
private theorem hasIdentity_of_merge {r : Option Json} (ho : HasIdentity id o)
    (ht : HasIdentity id t) (h : mergeMetadataValues base (some o) (some t) = some r)
    (hid : ∀ v, id ≠ .value v) : HasIdentity id (r.getD .null) := by
  cases id with
  | value v => exact absurd rfl (hid v)
  | id s =>
    obtain ⟨hs, ho⟩ := ho
    obtain ⟨-, ht⟩ := ht
    obtain ⟨hofull, members, rfl⟩ := full_of_field ho
    obtain ⟨htfull, members', rfl⟩ := full_of_field ht
    have heq : ∀ {v : Json} {w : Option Json}, emptyMember (some v) = false →
        jsonEqual w (some v) = true → w = some v :=
      fun hfull h => (eq_of_jsonEqual (jsonEqual_symm h) hfull).symm
    refine ⟨hs, ?_⟩
    cases keepsBoth_of_merge h with
    | theirs _ h =>
      rw [heq htfull h]
      exact ht
    | ours _ _ h =>
      rw [heq hofull h]
      exact ho
    | agreed _ _ h =>
      rw [heq hofull h]
      exact ho
    | @object _ _ _ _ B O T R _ _ hO hT hR hkeys =>
      have hid := hkeys "id"
      rw [← field_eq hO, ← field_eq hT, ho, ht, ← field_eq hR] at hid
      have hfield := keepsMember_id hs hid
      cases r with
      | none => cases hfield
      | some r => exact hfield
    | list _ _ hO => cases hO

private theorem eq_of_identity {item v : Json} (h : identity item = some (.value v)) :
    item = v := by
  cases item with
  | object members =>
    simp only [identity, Option.map_eq_some_iff] at h
    obtain ⟨s, _, hs⟩ := h
    cases hs
  | array items => cases h
  | null => cases h; rfl
  | bool b => cases h; rfl
  | number n => cases h; rfl
  | string s => cases h; rfl

private theorem hasIdentity_of_outcome {B O T : Index} {e : Json} (hplain : Plain ours)
    (hplain' : Plain theirs) (hB : indexOf base = some B) (hO : indexOf ours = some O)
    (hT : indexOf theirs = some T)
    (h : entryOutcome mergeMetadataValues B O T id = some (some e)) : HasIdentity id e := by
  have hours : ∀ item, O.byID.lookup id = some item → HasIdentity id item := fun item hitem =>
    (entry_hasIdentity hplain hO hitem).1
  have htheirs : ∀ item, T.byID.lookup id = some item → HasIdentity id item := fun item hitem =>
    (entry_hasIdentity hplain' hT hitem).1
  unfold entryOutcome at h
  split at h
  · unfold theirEntry at h
    cases hitem : T.byID.lookup id with
    | none => exact absurd (AList.lookup_eq_none.1 hitem) (not_not.2 ‹_›)
    | some t =>
      have ht := htheirs t hitem
      simp only [hitem] at h
      split at h
      · split at h <;> cases h
      · rename_i b o hb ho
        split at h
        · cases h
          exact ht
        rename_i hchanged
        split at h
        · cases h
          exact hours _ ho
        rw [Option.map_eq_some_iff] at h
        obtain ⟨v, hv, heq⟩ := h
        cases heq
        refine hasIdentity_of_merge (hours o ho) ht hv fun w hw => hchanged ?_
        subst hw
        -- a scalar of base with this identity is the scalar itself
        simp only [indexOf, Option.bind_eq_bind, Option.bind_eq_some_iff] at hB
        obtain ⟨items, _, hidx⟩ := hB
        rw [eq_of_identity (index_holds hidx _ b hb).2, (hours o ho).1]
        exact jsonEqual_refl _
      · rename_i o _ ho
        split at h
        · cases h
          exact ht
        rename_i hchanged
        rw [Option.map_eq_some_iff] at h
        obtain ⟨v, hv, heq⟩ := h
        cases heq
        refine hasIdentity_of_merge (hours o ho) ht hv fun w hw => hchanged ?_
        subst hw
        rw [(hours o ho).1, ht.1]
        exact jsonEqual_refl _
      · cases h
        exact ht
  · split at h
    · unfold ourEntry at h
      rw [if_neg ‹_›] at h
      split at h
      · split at h <;> cases h
      · exact hours e (Option.some.inj h)
    · cases h

private theorem HasIdentity.inj {other : Identity} {e : Json} (h : HasIdentity id e)
    (h' : HasIdentity other e) {s : String} (hid : id = .id s) : other = .id s := by
  subst hid
  cases other with
  | id s' =>
    have heq := h.2.symm.trans h'.2
    cases heq
    rfl
  | value v =>
    obtain ⟨_, members, hobject⟩ := full_of_field h.2
    exact absurd (h'.1.symm.trans hobject) (h'.2.1 members)

/-! ## Values that are the same merge have the same parts -/

private theorem field_of_empty {v : Option Json} (h : emptyMember v = true) :
    field v key = none := by
  rcases emptyMember_cases h with hvalue | rfl | rfl
  · unfold field unmarshalFields
    split <;> rename_i hf
    · split at hf
      · cases hvalue
      · rw [if_pos hvalue] at hf
        cases hf
        rfl
    · rfl
  · rfl
  · rfl

private theorem sameMember_field {v w : Json} {V : Fields} (hv : v = marshalMap V)
    (h : SameMerge (some v) (some w)) (key : String) :
    SameMember key (field (some v) key) (field (some w) key) := by
  generalize hl : some v = l at h
  generalize hr : some w = r at h
  cases h with
  | equal heq =>
    rcases jsonEqual_iff.1 heq with rfl | ⟨hempty, hempty'⟩
    · exact .value (SameMerge.refl _)
    rw [field_of_empty hempty, field_of_empty hempty']
    exact .value (SameMerge.refl _)
  | object hV hW hkeys =>
    rw [field_eq hV, field_eq hW]
    exact hkeys key
  | list =>
    subst hv
    cases hl

private theorem sameMerge_item {xs ys : List Json} {x : Json}
    (h : SameMerge (some (.array xs)) (some (.array ys))) (hx : x ∈ xs) :
    ∃ y ∈ ys, SameMerge (some x) (some y) := by
  generalize hl : some (Json.array xs) = l at h
  generalize hr : some (Json.array ys) = r at h
  cases h with
  | equal heq =>
    subst hl hr
    rcases jsonEqual_iff.1 heq with heq | ⟨hempty, _⟩
    · cases heq
      exact ⟨x, hx, SameMerge.refl _⟩
    · rcases emptyMember_cases hempty with hvalue | hnil | hnil
      · cases hvalue
      · cases hnil
        cases hx
      · cases hnil
  | object hV =>
    subst hl
    cases hV
  | @list V W hids hentries =>
    cases hl
    cases hr
    obtain ⟨⟨label, _⟩, hmem, rfl⟩ := List.mem_map.1 hx
    have hlookup : V.lookup label = some _ := AList.mem_lookup_iff.2 hmem
    have hW : label ∈ W := (hids label).1 (AList.lookup_isSome.1 (by rw [hlookup]; rfl))
    obtain ⟨y, hy⟩ := Option.isSome_iff_exists.1 (AList.lookup_isSome.2 hW)
    refine ⟨y, List.mem_map.2 ⟨⟨label, y⟩, AList.mem_lookup_iff.1 hy, rfl⟩, ?_⟩
    have hsame := hentries label
    rw [hlookup, hy] at hsame
    exact hsame

private theorem HasIdentity.of_same {x y : Json} {s : String} (hx : HasIdentity (.id s) x)
    (h : SameMerge (some x) (some y)) : HasIdentity (.id s) y := by
  obtain ⟨hs, hfield⟩ := hx
  refine ⟨hs, ?_⟩
  have hfull : emptyMember (some (.string s)) = false := by
    simp [emptyMember, emptyJSONValue, hs]
  generalize hl : some x = l at h
  generalize hr : some y = r at h
  cases h with
  | equal heq =>
    rw [← hl, ← hr] at heq
    rw [← hr, ← eq_of_jsonEqual heq (full_of_field hfield).1]
    exact hfield
  | object hV hW hkeys =>
    have hid := hkeys "id"
    rw [← field_eq hV, ← field_eq hW, ← hl, hfield] at hid
    generalize hkey : "id" = name at hid
    generalize hside : some (Json.string s) = side at hid
    cases hid with
    | value hsame =>
      subst hside
      cases hsame with
      | equal heq => exact (eq_of_jsonEqual heq hfull).symm
      | object hstring => simp [unmarshalFields, emptyJSONValue, hs] at hstring
    | time => exact absurd hkey (by decide)
  | list =>
    cases hl
    cases hfield

/-! ## An uneven merge -/

private theorem Uneven.bothChanged (h : Uneven base ours theirs) :
    BothChanged base ours theirs := by
  cases h with
  | here _ hboth => exact hboth
  | key _ hboth => exact hboth
  | entry _ hboth => exact hboth

private theorem LopsidedKey.isSome_of_same {v : Option Json} (h : LopsidedKey key base v v) :
    base.isSome ∧ v.isSome := by
  cases v with
  | none => cases h
  | some v => cases h <;> exact ⟨rfl, rfl⟩

/-- One side has something at the place where the orders disagree. -/
private theorem Uneven.not_empty (h : Uneven base ours theirs) (hours : emptyMember ours)
    (htheirs : emptyMember theirs) : False := by
  cases h with
  | here key _ _ _ hO hT hlop =>
    rw [← field_eq hO, ← field_eq hT, field_of_empty hours, field_of_empty htheirs, or_self] at hlop
    cases hlop.isSome_of_same.2
  | key key _ _ _ hO _ ho =>
    rw [← field_eq hO, field_of_empty hours] at ho
    cases ho
  | entry id _ _ _ hO _ ho =>
    rw [indexOf_of_empty hours hO] at ho
    cases ho

/-- A value that holds no other values. -/
private def Bare (v : Json) : Prop :=
  emptyMember (some v) ∨ (∀ members, v ≠ .object members) ∧ ∀ items, v ≠ .array items

private theorem Bare.empty_of_fits {kind : JsonKind} {v : Json} (h : Bare v)
    (hfit : FitsKind kind (some v)) (hkind : kind = .object ∨ kind = .array) :
    emptyMember (some v) := by
  rcases h with hempty | ⟨hobject, harray⟩
  · exact hempty
  by_contra hfull
  unfold FitsKind jsonKind at hfit
  rw [if_neg hfull] at hfit
  split at hfit
  · rename_i members heq
    exact hobject members (Option.some.inj heq)
  · rename_i items heq
    exact harray items (Option.some.inj heq)
  · rcases hkind with rfl | rfl <;> simp at hfit

private theorem Uneven.not_bare (h : Uneven base (some o) (some t)) (ho : Bare o) (ht : Bare t) :
    False := by
  rcases h.fits with hfit | hfit
  · exact h.not_empty (ho.empty_of_fits hfit.2.1 (.inl rfl)) (ht.empty_of_fits hfit.2.2 (.inl rfl))
  · exact h.not_empty (ho.empty_of_fits hfit.2.1 (.inr rfl)) (ht.empty_of_fits hfit.2.2 (.inr rfl))

private theorem bare_of_time {v : Json} {instant : Int}
    (h : unmarshalTime (some v) = some instant) : Bare v := by
  refine Or.inr ⟨?_, ?_⟩
  · rintro members rfl
    cases h
  · rintro items rfl
    cases h

private theorem bare_of_count {v : Json} {n : Int} (h : count (some v) = some n) : Bare v := by
  by_cases hempty : emptyMember (some v) = true
  · exact Or.inl hempty
  unfold count at h
  rw [if_neg hempty] at h
  refine Or.inr ⟨?_, ?_⟩
  · rintro members rfl
    cases h
  · rintro items rfl
    cases h

/-- What is uneven below a key is merged as a value, whatever the key's name. -/
private theorem Uneven.memberVia_eq (h : Uneven base (some o) (some t)) :
    memberVia mergeMetadataValues key base (some o) (some t) =
      mergeMetadataValues base (some o) (some t) := by
  rcases memberVia_cases mergeMetadataValues key base (some o) (some t) with
    hv | ⟨-, v, hlater, -⟩ | ⟨-, -, v, hdelta, -⟩
  · exact hv
  · simp only [laterTime, Option.bind_eq_bind, Option.bind_eq_some_iff] at hlater
    obtain ⟨_, hmine, _, htheir, _⟩ := hlater
    exact (h.not_bare (bare_of_time hmine) (bare_of_time htheir)).elim
  · simp only [addDelta, Option.bind_eq_bind, Option.bind_eq_some_iff] at hdelta
    obtain ⟨_, _, _, hmine, _, htheir, _⟩ := hdelta
    exact (h.not_bare (bare_of_count hmine) (bare_of_count htheir)).elim

theorem Uneven.swap (h : Uneven base ours theirs) : Uneven base theirs ours := by
  induction h with
  | here key hboth hfit hB hO hT hlop =>
    exact .here key ⟨hboth.theirs, hboth.ours⟩ hfit.swap hB hT hO hlop.symm
  | key key hboth hfit hB hO hT ho ht _ ih =>
    exact .key key ⟨hboth.theirs, hboth.ours⟩ hfit.swap hB hT hO ht ho ih
  | entry id hboth hfit hB hO hT ho ht _ ih =>
    exact .entry id ⟨hboth.theirs, hboth.ours⟩ hfit.swap hB hT hO ht ho ih

private theorem objects_of_merge {r : Option Json} (hboth : BothChanged base ours theirs)
    (hfit : AllFit .object base ours theirs) (h : mergeMetadataValues base ours theirs = some r) :
    ∃ v, r = some v ∧ objectsVia mergeMetadataValues base ours theirs = some v := by
  rw [mergeMetadataValues_eq, valuesVia_of_changed _ hboth.ours hboth.theirs, if_pos hfit,
    Option.map_eq_some_iff] at h
  obtain ⟨v, hv, rfl⟩ := h
  exact ⟨v, rfl, hv⟩

private theorem lists_of_merge {r : Option Json} (hboth : BothChanged base ours theirs)
    (hfit : AllFit .array base ours theirs) (h : mergeMetadataValues base ours theirs = some r) :
    ∃ v, r = some v ∧ listsVia mergeMetadataValues base ours theirs = some v := by
  rw [mergeMetadataValues_eq, valuesVia_of_changed _ hboth.ours hboth.theirs,
    if_neg (not_allFit_object hboth.ours hfit), if_pos hfit, Option.map_eq_some_iff] at h
  obtain ⟨v, hv, rfl⟩ := h
  exact ⟨v, rfl, hv⟩

/-- Where a merge descends it leaves an object or a list, and so no time. -/
private theorem Uneven.merged {r : Option Json} (h : Uneven base ours theirs)
    (hr : mergeMetadataValues base ours theirs = some r) :
    ∃ v, r = some v ∧ unmarshalTime (some v) = none := by
  rcases h.fits with hfit | hfit
  · obtain ⟨v, rfl, hv⟩ := objects_of_merge h.bothChanged hfit hr
    obtain ⟨_, _, _, _, _, _, ⟨_, rfl⟩, _⟩ := objectsVia_eq_some hv
    exact ⟨_, rfl, rfl⟩
  · obtain ⟨v, rfl, hv⟩ := lists_of_merge h.bothChanged hfit hr
    obtain ⟨_, _, _, _, _, _, _, rfl⟩ := listsVia_eq_some_iff.1 hv
    exact ⟨_, rfl, rfl⟩

/-- The members of two objects that are the same merge swap. -/
private theorem keySwaps_of_same {B O T : Fields} {v w : Json} (hB : unmarshalFields base = some B)
    (hO : unmarshalFields ours = some O) (hT : unmarshalFields theirs = some T)
    (hv : objectsVia mergeMetadataValues base ours theirs = some v)
    (hw : objectsVia mergeMetadataValues base theirs ours = some w)
    (hsame : SameMerge (some v) (some w)) (key : String) :
    ∃ c c', keyChange mergeMetadataValues key (B.lookup key) (O.lookup key) (T.lookup key) =
        some c ∧
      keyChange mergeMetadataValues key (B.lookup key) (T.lookup key) (O.lookup key) =
        some c' ∧ SameChange key (O.lookup key) (T.lookup key) c c' := by
  obtain ⟨B₁, O₁, T₁, hB₁, hO₁, hT₁, ⟨fields, hfields⟩, hkeys⟩ := objectsVia_eq_some hv
  obtain ⟨B₂, T₂, O₂, hB₂, hT₂, hO₂, _, hkeys'⟩ := objectsVia_eq_some hw
  cases hB.symm.trans hB₁
  cases hB.symm.trans hB₂
  cases hO.symm.trans hO₁
  cases hO.symm.trans hO₂
  cases hT.symm.trans hT₁
  cases hT.symm.trans hT₂
  obtain ⟨c, hc, hvalue⟩ := hkeys key
  obtain ⟨c', hc', hvalue'⟩ := hkeys' key
  have hmember := sameMember_field hfields hsame key
  rw [hvalue, hvalue'] at hmember
  exact ⟨c, c', hc, hc', hmember⟩

/-- Below a key the merges are those of the members. -/
private theorem Uneven.of_member (h : Uneven base (some o) (some t)) {c c' : KeyChange Json}
    (hc : keyChange mergeMetadataValues key base (some o) (some t) = some c)
    (hc' : keyChange mergeMetadataValues key base (some t) (some o) = some c')
    (hsame : SameChange key (some o) (some t) c c') :
    ∃ r r', mergeMetadataValues base (some o) (some t) = some r ∧
      mergeMetadataValues base (some t) (some o) = some r' ∧ SameMerge r r' := by
  have hours : base.isSome → jsonEqual base (some o) = false := fun _ =>
    (jsonEqual_comm _ _).trans h.bothChanged.ours
  have htheirs : base.isSome → jsonEqual base (some t) = false := fun _ =>
    (jsonEqual_comm _ _).trans h.bothChanged.theirs
  rw [keyChange_of_changed hours (.inr rfl), h.memberVia_eq, Option.map_eq_some_iff] at hc
  rw [keyChange_of_changed htheirs (.inr rfl), h.swap.memberVia_eq, Option.map_eq_some_iff] at hc'
  obtain ⟨r, hr, rfl⟩ := hc
  obtain ⟨r', hr', rfl⟩ := hc'
  obtain ⟨v, rfl, hv⟩ := h.merged hr
  obtain ⟨v', rfl, _⟩ := h.swap.merged hr'
  refine ⟨_, _, hr, hr', ?_⟩
  unfold SameChange at hsame
  simp only [KeyChange.value, Option.getD_some] at hsame
  cases hsame with
  | value hsame => exact hsame
  | time hinstant => cases hv.symm.trans hinstant

/-- Two sides that added the same value are not uneven. -/
private theorem Uneven.ne_of_added (h : Uneven base ours theirs) (hbase : base = none) :
    ours ≠ theirs := by
  induction h with
  | here key _ _ hB hO hT hlop =>
    intro heq
    subst hbase heq
    cases hB
    cases hO.symm.trans hT
    rw [AList.lookup_empty, or_self] at hlop
    cases hlop.isSome_of_same.1
  | key key _ _ hB hO hT ho ht _ ih =>
    intro heq
    subst hbase heq
    cases hB
    cases hO.symm.trans hT
    exact ih (AList.lookup_empty key) (ho.symm.trans ht)
  | entry id _ _ hB hO hT ho ht _ ih =>
    intro heq
    subst hbase heq
    cases hO.symm.trans hT
    refine ih ?_ (ho.symm.trans ht)
    rw [indexOf_of_empty rfl hB]
    exact AList.lookup_empty id

private theorem Uneven.entryOutcome_eq {B O T : Index} (ho : O.byID.lookup id = some o)
    (ht : T.byID.lookup id = some t) (h : Uneven (B.byID.lookup id) (some o) (some t)) :
    entryOutcome mergeMetadataValues B O T id =
      (mergeMetadataValues (B.byID.lookup id) (some o) (some t)).map fun v =>
        some (v.getD .null) := by
  have hmem : id ∈ T.byID := AList.lookup_isSome.1 (by rw [ht]; rfl)
  have hboth := h.bothChanged
  have hadded := h.ne_of_added
  have hempty := h.not_empty
  unfold entryOutcome theirEntry
  rw [if_pos hmem, ho, ht]
  generalize B.byID.lookup id = base at hboth hadded ⊢
  cases base with
  | none =>
    have hne : jsonEqual (some o) (some t) = false := by
      refine Bool.eq_false_iff.2 fun heq => ?_
      rcases jsonEqual_iff.1 heq with heq | ⟨ho, ht⟩
      · exact hadded rfl heq
      · exact hempty ho ht
    simp [hne]
  | some b => simp [hboth.ours, hboth.theirs]

/-- In two lists that are the same merge, so are the entries of one identity. -/
private theorem Uneven.of_entry {B O T : Index} {v w : Json} (hours : Plain ours)
    (htheirs : Plain theirs) (hB : indexOf base = some B) (hO : indexOf ours = some O)
    (hT : indexOf theirs = some T)
    (hv : listsVia mergeMetadataValues base ours theirs = some v)
    (hw : listsVia mergeMetadataValues base theirs ours = some w)
    (hsame : SameMerge (some v) (some w)) (ho : O.byID.lookup id = some o)
    (ht : T.byID.lookup id = some t) (h : Uneven (B.byID.lookup id) (some o) (some t)) :
    ∃ r r', mergeMetadataValues (B.byID.lookup id) (some o) (some t) = some r ∧
      mergeMetadataValues (B.byID.lookup id) (some t) (some o) = some r' ∧ SameMerge r r' := by
  obtain ⟨B₁, O₁, T₁, hB₁, hO₁, hT₁, hall, rfl⟩ := listsVia_eq_some_iff.1 hv
  obtain ⟨B₂, T₂, O₂, hB₂, hT₂, hO₂, _, rfl⟩ := listsVia_eq_some_iff.1 hw
  cases hB.symm.trans hB₁
  cases hB.symm.trans hB₂
  cases hO.symm.trans hO₁
  cases hO.symm.trans hO₂
  cases hT.symm.trans hT₁
  cases hT.symm.trans hT₂
  have hout := h.entryOutcome_eq ho ht
  have hout' := h.swap.entryOutcome_eq ht ho
  obtain ⟨out, hr⟩ := Option.isSome_iff_exists.1 (hall id)
  rw [hout, Option.map_eq_some_iff] at hr
  obtain ⟨r, hr, rfl⟩ := hr
  obtain ⟨x, rfl, _⟩ := h.merged hr
  rw [hr] at hout
  -- the merged entry is in ours' list, so its like is in theirs'
  have hx : x ∈ (mergedOrder O T).filterMap fun id =>
      (entryOutcome mergeMetadataValues B O T id).join := by
    refine List.mem_filterMap.2 ⟨id, mem_mergedOrder.2 (.inl ?_), by rw [hout]; rfl⟩
    exact AList.lookup_isSome.1 (by rw [ht]; rfl)
  obtain ⟨y, hy, hxy⟩ := sameMerge_item hsame hx
  obtain ⟨other, _, hy⟩ := List.mem_filterMap.1 hy
  have hy : entryOutcome mergeMetadataValues B T O other = some (some y) :=
    Option.join_eq_some_iff.1 hy
  -- and it is the entry of the same identity
  have hid : other = id := by
    have hxid := hasIdentity_of_outcome hours htheirs hB hO hT hout
    have hyid := hasIdentity_of_outcome htheirs hours hB hT hO hy
    cases id with
    | value v =>
      have ho := (entry_hasIdentity hours hO ho).1
      have ht := (entry_hasIdentity htheirs hT ht).1
      refine (h.not_bare (.inr ?_) (.inr ?_)).elim
      · exact ho.1 ▸ ho.2
      · exact ht.1 ▸ ht.2
    | id s => exact (hxid.of_same hxy).inj hyid rfl
  subst hid
  rw [hy] at hout'
  obtain ⟨r', hr', heq⟩ := Option.map_eq_some_iff.1 hout'.symm
  obtain ⟨y', rfl, _⟩ := h.swap.merged hr'
  cases heq
  exact ⟨_, _, hr, hr', hxy⟩

/-- An uneven merge that succeeds both ways leaves two different merges. -/
private theorem Uneven.disagrees (h : Uneven base ours theirs) :
    ∀ {r r' : Option Json}, Plain ours → Plain theirs →
      mergeMetadataValues base ours theirs = some r →
      mergeMetadataValues base theirs ours = some r' → ¬SameMerge r r' := by
  induction h with
  | @here base ours theirs B O T key hboth hfit hB hO hT hlop =>
    intro r r' _ _ hr hr' hsame
    obtain ⟨v, rfl, hv⟩ := objects_of_merge hboth hfit hr
    obtain ⟨w, rfl, hw⟩ := objects_of_merge ⟨hboth.theirs, hboth.ours⟩ hfit.swap hr'
    obtain ⟨c, c', hc, hc', hchange⟩ := keySwaps_of_same hB hO hT hv hw hsame key
    have hkey : KeySwaps key (B.lookup key) (O.lookup key) (T.lookup key) := by
      unfold KeySwaps
      rw [hc, hc']
      exact .some hchange
    rcases hlop with hlop | hlop
    · exact not_keySwaps_of_lopsided hlop hkey
    · exact not_keySwaps_of_lopsided hlop hkey.symm
  | @key base ours theirs B O T key o t hboth hfit hB hO hT ho ht hsub ih =>
    intro r r' hours htheirs hr hr' hsame
    obtain ⟨v, rfl, hv⟩ := objects_of_merge hboth hfit hr
    obtain ⟨w, rfl, hw⟩ := objects_of_merge ⟨hboth.theirs, hboth.ours⟩ hfit.swap hr'
    obtain ⟨c, c', hc, hc', hchange⟩ := keySwaps_of_same hB hO hT hv hw hsame key
    rw [ho, ht] at hc hc' hchange
    obtain ⟨r, r', hr, hr', hsame⟩ := hsub.of_member hc hc' hchange
    exact ih (hours.lookup hO ho) (htheirs.lookup hT ht) hr hr' hsame
  | @entry base ours theirs B O T id o t hboth hfit hB hO hT ho ht hsub ih =>
    intro r r' hours htheirs hr hr' hsame
    obtain ⟨v, rfl, hv⟩ := lists_of_merge hboth hfit hr
    obtain ⟨w, rfl, hw⟩ := lists_of_merge ⟨hboth.theirs, hboth.ours⟩ hfit.swap hr'
    obtain ⟨r, r', hr, hr', hsame⟩ :=
      Uneven.of_entry hours htheirs hB hO hT hv hw hsame ho ht hsub
    exact ih (plain_some (entry_hasIdentity hours hO ho).2)
      (plain_some (entry_hasIdentity htheirs hT ht).2) hr hr' hsame

end Flow.Ports.MetadataMerge
