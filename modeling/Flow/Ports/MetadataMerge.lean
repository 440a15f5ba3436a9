import Flow.Verified.Json
import Flow.Verified.Keyed
import Flow.Verified.Rfc3339

/-!
# The three-way merge of metadata values

`store/metadata_record_merge.go` merges a value two writes changed from one base:
objects key by key, lists by entry, `updatedAt` as the later time, additive counters
by delta, and nothing else.  An absent member is `none`, the source's nil raw message.

The functions of the source call each other: a value merges its keys and entries,
which are values.  Here each takes the merge of the nested values as a parameter, and
`valuesWithin` closes the recursion with a bound on the nesting.  `mergeMetadataValues`
takes a bound above the depth of its arguments, and `mergeMetadataValues_eq` is the
source's own recursive equation, with no bound in it.
-/

namespace Flow.Ports.MetadataMerge

open List Option Flow.Verified Keyed

def emptyJSONValue : Option Json → Bool
  | none => true
  | some .null => true
  | some (.string s) => s == ""
  | some _ => false

/-- An absent field and an empty one are the same record. -/
def emptyMember (value : Option Json) : Bool :=
  emptyJSONValue value || value == some (.array []) || value == some (.object [])

def jsonEqual (a b : Option Json) : Bool :=
  a == b || (emptyMember a && emptyMember b)

inductive JsonKind where
  | absent
  | object
  | array
  | scalar
deriving DecidableEq, Repr

/-- The bit of a kind; the merge dispatches on the union of three of them. -/
def JsonKind.flag : JsonKind → Nat
  | .absent => 1
  | .object => 2
  | .array => 4
  | .scalar => 8

/-- The kind of a member value; an absent, null or empty value merges with
either container shape. -/
def jsonKind (value : Option Json) : JsonKind :=
  if emptyMember value then .absent
  else
    match value with
    | some (.object _) => .object
    | some (.array _) => .array
    | _ => .scalar

/-- Decode an object; an empty value has no keys, anything else fails. -/
def unmarshalFields : Option Json → Option Fields
  | some (.object members) => some (unmarshalMap members)
  | value => if emptyJSONValue value then some ∅ else none

/-- Decode a list; an empty value has no items, anything else fails. -/
def unmarshalItems : Option Json → Option (List Json)
  | some (.array items) => some items
  | value => if emptyJSONValue value then some [] else none

/-- What a list entry is known by: its `id`, or its own text. -/
inductive Identity where
  | id (s : String)
  | value (v : Json)
deriving DecidableEq

/-- The `id` a struct decode finds: keys match without case, the last of them
wins, and one that is neither a string nor null fails the decode. -/
def entryID (members : List (String × Json)) : Option String :=
  let ids := (members.filter fun m => m.1.toList.map Char.toLower == ['i', 'd']).map
    Prod.snd
  let decodes := ids.all fun v =>
    match v with
    | .string _ => true
    | .null => true
    | _ => false
  match decodes, ids.getLast? with
  | true, some (.string s) => if s = "" then none else some s
  | _, _ => none

def identity : Json → Option Identity
  | .object members => (entryID members).map .id
  | .array _ => none
  | item => some (.value item)

abbrev Entries := AList (fun _ : Identity => Json)

structure Index where
  byID : Entries
  order : List Identity
  nodup : order.Nodup
  mem_order : ∀ id, id ∈ order ↔ id ∈ byID

def Index.empty : Index where
  byID := ∅
  order := []
  nodup := nodup_nil
  mem_order := fun id => by simp

/-- One item of the loop: a repeated identity keeps its place and takes the
later item. -/
def Index.add (index : Index) (id : Identity) (item : Json) : Index where
  byID := index.byID.insert id item
  order := if id ∈ index.byID then index.order else index.order ++ [id]
  nodup := by
    split
    · exact index.nodup
    · rename_i hid
      have hid : id ∉ index.order := fun h => hid ((index.mem_order id).1 h)
      refine Nodup.append index.nodup (nodup_singleton id) ?_
      intro x hx hx'
      rw [mem_singleton] at hx'
      exact hid (hx' ▸ hx)
  mem_order := fun x => by
    split
    · rename_i hid
      rw [AList.mem_insert, index.mem_order]
      exact ⟨Or.inr, fun h => h.elim (fun heq => heq ▸ hid) fun h => h⟩
    · rw [AList.mem_insert, mem_append, mem_singleton, index.mem_order, or_comm]

/-- Index items one by one; an item without identity fails. -/
def indexFrom : Index → List Json → Option Index
  | index, [] => some index
  | index, item :: items =>
    match identity item with
    | some id => indexFrom (index.add id item) items
    | none => none

def index (items : List Json) : Option Index := indexFrom Index.empty items

def indexOf (value : Option Json) : Option Index := do
  let items ← unmarshalItems value
  index items

/-! ## The merge, over the merge of nested values -/

/-- A merge of base, ours and theirs; `none` is a conflict, and the merged
value may itself be absent. -/
abbrev Merge := Option Json → Option Json → Option Json → Option (Option Json)

section Via

variable (values : Merge)

/-- One entry of theirs: dropped when ours removed it, else theirs, ours or
the two merged. -/
def theirEntry (base ours theirs : Entries) (id : Identity) : Option (Option Json) :=
  let theirItem := theirs.lookup id
  match base.lookup id, ours.lookup id with
  | some baseItem, none =>
    if jsonEqual theirItem (some baseItem) then some none else none
  | some baseItem, some ourItem =>
    if jsonEqual (some ourItem) (some baseItem) then some theirItem
    else if jsonEqual theirItem (some baseItem) then some (some ourItem)
    else
      (values (some baseItem) (some ourItem) theirItem).map fun v =>
        some (v.getD .null)
  | none, some ourItem =>
    if jsonEqual (some ourItem) theirItem then some theirItem
    else (values none (some ourItem) theirItem).map fun v => some (v.getD .null)
  | none, none => some theirItem

/-- One entry of ours that theirs may lack: dropped when theirs removed it,
else appended. -/
def ourEntry (base ours theirs : Entries) (id : Identity) : Option (Option Json) :=
  if id ∈ theirs then some none
  else
    match base.lookup id with
    | some baseItem =>
      if jsonEqual (ours.lookup id) (some baseItem) then some none else none
    | none => some (ours.lookup id)

/-- Lists of scalars merge as sets, lists of objects with an id by entry. -/
def listsVia (base ours theirs : Option Json) : Option Json := do
  let baseIndex ← indexOf base
  let ourIndex ← indexOf ours
  let theirIndex ← indexOf theirs
  let kept ← collect
    (theirEntry values baseIndex.byID ourIndex.byID theirIndex.byID) theirIndex.order
  let added ← collect
    (ourEntry baseIndex.byID ourIndex.byID theirIndex.byID) ourIndex.order
  some (.array (kept ++ added))

/-- A time member; null decodes to the zero time. -/
def unmarshalTime : Option Json → Option Int
  | some .null => some Rfc3339.zeroTime
  | some (.string s) => Rfc3339.parse s
  | _ => none

/-- The later of two times, theirs when they are the same instant. -/
def laterTime (ours theirs : Option Json) : Option (Option Json) := do
  let mine ← unmarshalTime ours
  let their ← unmarshalTime theirs
  some (if their < mine then ours else theirs)

def additiveCounters : List String :=
  ["imported", "retryCount", "occurrenceCount", "version", "personalSettingsVersion"]

def count (raw : Option Json) : Option Int :=
  if emptyMember raw then some 0
  else
    match raw with
    | some (.number n) => n.parseInt
    | _ => none

/-- Theirs plus ours' delta, when no side went down and the sum fits. -/
def addDelta (base ours theirs : Option Json) : Option Json := do
  let before ← count base
  let mine ← count ours
  let their ← count theirs
  if 0 ≤ before ∧ before ≤ mine ∧ before ≤ their ∧ their ≤ maxInt64 - (mine - before) then
    some (.number (JsonNumber.formatInt (their + (mine - before))))
  else none

/-- Only additive counters use deltas; `updatedAt` takes the later time. -/
def memberVia (name : String) (base ours theirs : Option Json) :
    Option (Option Json) :=
  if name = "updatedAt" then
    match laterTime ours theirs with
    | some value => some value
    | none => values base ours theirs
  else if name ∈ additiveCounters then
    match addDelta base ours theirs with
    | some value => some (some value)
    | none => values base ours theirs
  else values base ours theirs

def keyVia (key : String) (base ours theirs : Option Json) : Option (KeyChange Json) :=
  if base.isSome && jsonEqual base ours then some .keep
  else if base.isSome && ours.isNone then
    -- an absent membership list is an empty set, not a scalar deletion
    if jsonKind base = .array ∧ jsonKind theirs = .array then
      (listsVia values base none theirs).map .set
    else if theirs.isSome && theirs != base then none
    else some .delete
  else if base.isSome && theirs.isNone then
    if jsonKind base = .array ∧ jsonKind ours = .array then
      (listsVia values base ours none).map .set
    else none
  else (memberVia values key base ours theirs).map fun v => .set (v.getD .null)

def objectsVia (base ours theirs : Option Json) : Option Json := do
  let baseKeys ← unmarshalFields base
  let ourKeys ← unmarshalFields ours
  let theirKeys ← unmarshalFields theirs
  let merged ← updateKeys
    (fun key => keyVia values key (baseKeys.lookup key) (ourKeys.lookup key)
      (theirKeys.lookup key))
    (baseKeys.keys ++ ourKeys.keys) theirKeys
  some (marshalMap merged)

/-- Whether a text starts like a number. -/
def isNumber : Option Json → Bool
  | some (.number _) => true
  | _ => false

def valuesVia (base ours theirs : Option Json) : Option (Option Json) :=
  if jsonEqual ours base then some theirs
  else if jsonEqual theirs base then some ours
  else
    let kinds := (jsonKind ours).flag ||| (jsonKind theirs).flag ||| (jsonKind base).flag
    if kinds = 2 ∨ kinds = 2 ||| 1 then (objectsVia values base ours theirs).map some
    else if kinds = 4 ∨ kinds = 4 ||| 1 then (listsVia values base ours theirs).map some
    else if jsonEqual theirs ours then
      -- a number both moved counts a step on each side: not an agreement
      if isNumber ours then none else some ours
    else none

end Via

/-- The merge of values nested less than `n` deep. -/
def valuesWithin : Nat → Merge
  | 0 => fun _ _ _ => none
  | n + 1 => valuesVia (valuesWithin n)

def depth₃ (base ours theirs : Option Json) : Nat :=
  max (depthOf base) (max (depthOf ours) (depthOf theirs))

def mergeMetadataValues (base ours theirs : Option Json) : Option (Option Json) :=
  valuesWithin (depth₃ base ours theirs + 1) base ours theirs

def mergeMetadataLists (base ours theirs : Option Json) : Option Json :=
  listsVia mergeMetadataValues base ours theirs

def mergeMetadataObjects (base ours theirs : Option Json) : Option Json :=
  objectsVia mergeMetadataValues base ours theirs

def mergeMetadataMember (name : String) (base ours theirs : Option Json) :
    Option (Option Json) :=
  memberVia mergeMetadataValues name base ours theirs

variable {a b : Option Json}

theorem jsonEqual_iff : jsonEqual a b ↔ a = b ∨ emptyMember a ∧ emptyMember b := by
  simp [jsonEqual]

@[simp] theorem jsonEqual_refl (a : Option Json) : jsonEqual a a :=
  jsonEqual_iff.2 (Or.inl rfl)

theorem jsonEqual_symm (h : jsonEqual a b) : jsonEqual b a := by
  rw [jsonEqual_iff] at h ⊢
  exact h.imp Eq.symm And.symm

theorem jsonEqual_comm (a b : Option Json) : jsonEqual a b = jsonEqual b a := by
  rw [Bool.eq_iff_iff]
  exact ⟨jsonEqual_symm, jsonEqual_symm⟩

theorem jsonEqual_trans {c : Option Json} (hab : jsonEqual a b)
    (hbc : jsonEqual b c) : jsonEqual a c := by
  rw [jsonEqual_iff] at hab hbc ⊢
  rcases hab with rfl | ⟨ha, hb⟩
  · exact hbc
  · rcases hbc with rfl | ⟨_, hc⟩
    · exact Or.inr ⟨ha, hb⟩
    · exact Or.inr ⟨ha, hc⟩

theorem emptyMember_of_jsonEqual (h : jsonEqual a b) (ha : emptyMember a) : emptyMember b := by
  rcases jsonEqual_iff.1 h with rfl | ⟨_, hb⟩
  · exact ha
  · exact hb

theorem eq_of_jsonEqual (h : jsonEqual a b) (ha : emptyMember a = false) : a = b := by
  rcases jsonEqual_iff.1 h with hab | ⟨hempty, _⟩
  · exact hab
  · rw [ha] at hempty
    cases hempty

@[simp] theorem emptyMember_none : emptyMember none := rfl

/-! ## What an index holds -/

def Index.Holds (idx : Index) (items : List Json) : Prop :=
  ∀ id item, idx.byID.lookup id = some item → item ∈ items ∧ identity item = some id

private theorem indexFrom_spec {all : List Json} :
    ∀ (items : List Json) (start idx : Index), items ⊆ all → start.Holds all →
      indexFrom start items = some idx → idx.Holds all ∧ (∀ id ∈ start.byID, id ∈ idx.byID) ∧
        ∀ item ∈ items, ∃ id, identity item = some id ∧ id ∈ idx.byID := by
  intro items
  induction items with
  | nil =>
    intro start idx _ hstart h
    cases h
    exact ⟨hstart, fun _ hid => hid, fun _ hitem => by cases hitem⟩
  | cons item items ih =>
    intro start idx hsub hstart h
    simp only [indexFrom] at h
    cases hid : identity item with
    | none => simp [hid] at h
    | some i =>
      simp only [hid] at h
      obtain ⟨hholds, hkept, hitems⟩ := ih _ idx (fun x hx => hsub (mem_cons_of_mem _ hx)) (by
        intro id it hlookup
        simp only [Index.add] at hlookup
        by_cases heq : id = i
        · subst heq
          rw [AList.lookup_insert] at hlookup
          cases hlookup
          exact ⟨hsub mem_cons_self, hid⟩
        · rw [AList.lookup_insert_ne heq] at hlookup
          exact hstart id it hlookup) h
      have hadd : ∀ id, id = i ∨ id ∈ start.byID → id ∈ idx.byID := fun id hin =>
        hkept id ((AList.mem_insert _).2 hin)
      refine ⟨hholds, fun id hin => hadd id (Or.inr hin), fun x hx => ?_⟩
      rcases mem_cons.1 hx with rfl | hmem
      · exact ⟨i, hid, hadd i (Or.inl rfl)⟩
      · exact hitems x hmem

variable {items : List Json} {idx : Index} {value : Option Json}

private theorem index_spec (h : index items = some idx) : idx.Holds items ∧
    (∀ id ∈ Index.empty.byID, id ∈ idx.byID) ∧
      ∀ item ∈ items, ∃ id, identity item = some id ∧ id ∈ idx.byID :=
  indexFrom_spec items Index.empty idx (fun _ hx => hx) (fun _ _ hlookup => by cases hlookup) h

theorem index_holds (h : index items = some idx) : idx.Holds items := (index_spec h).1

theorem index_covers (h : index items = some idx) :
    ∀ item ∈ items, ∃ id, identity item = some id ∧ id ∈ idx.byID :=
  (index_spec h).2.2

/-- What an indexed value holds is less deep than the value. -/
theorem depth_entry_lt (h : indexOf value = some idx) {id : Identity} {item : Json}
    (hitem : idx.byID.lookup id = some item) : item.depth < depthOf value := by
  simp only [indexOf, bind_eq_bind, bind_eq_some_iff] at h
  obtain ⟨items, hitems, hidx⟩ := h
  have hmem := (index_holds hidx id item hitem).1
  unfold unmarshalItems at hitems
  split at hitems
  · cases hitems
    exact Json.depth_item_lt hmem
  · rw [ite_none_right_eq_some, some.injEq] at hitems
    rw [← hitems.2] at hmem
    cases hmem

theorem depth_entry_lt_bound (h : indexOf value = some idx) {d : Nat} (hd : depthOf value ≤ d)
    (hpos : 0 < d) (id : Identity) : depthOf (idx.byID.lookup id) < d := by
  cases hitem : idx.byID.lookup id with
  | none => exact hpos
  | some item => exact Nat.lt_of_lt_of_le (depth_entry_lt h hitem) hd

theorem depth_field_lt {fields : Fields} (h : unmarshalFields value = some fields) {d : Nat}
    (hd : depthOf value ≤ d) (hpos : 0 < d) (key : String) : depthOf (fields.lookup key) < d := by
  unfold unmarshalFields at h
  split at h
  · cases h
    exact Nat.lt_of_lt_of_le (depth_lookup_lt key _) hd
  · rw [ite_none_right_eq_some, some.injEq] at h
    rw [← h.2]
    exact hpos

/-! ## The recursion does not depend on its bound -/

/-- Two merges agree on values nested less than `d` deep. -/
def AgreeBelow (d : Nat) (f g : Merge) : Prop :=
  ∀ base ours theirs, depthOf base < d → depthOf ours < d → depthOf theirs < d →
    f base ours theirs = g base ours theirs

variable {base ours theirs : Option Json}

section Congr

variable {d : Nat} {f g : Merge}

private theorem theirEntry_congr (h : AgreeBelow d f g) {base ours theirs : Entries}
    {id : Identity} (hbase : depthOf (base.lookup id) < d) (hours : depthOf (ours.lookup id) < d)
    (htheirs : depthOf (theirs.lookup id) < d) :
    theirEntry f base ours theirs id = theirEntry g base ours theirs id := by
  unfold theirEntry
  generalize base.lookup id = b at hbase ⊢
  generalize ours.lookup id = o at hours ⊢
  cases o with
  | none => cases b <;> rfl
  | some ourItem => cases b <;> simp only <;> rw [h _ _ _ hbase hours htheirs]

theorem listsVia_congr (h : AgreeBelow d f g)
    (hbase : depthOf base ≤ d) (hours : depthOf ours ≤ d) (htheirs : depthOf theirs ≤ d)
    (hpos : 0 < d) : listsVia f base ours theirs = listsVia g base ours theirs := by
  refine bind_congr fun B hB => bind_congr fun O hO =>
    bind_congr fun T hT => ?_
  rw [collect_congr fun id _ => theirEntry_congr h (depth_entry_lt_bound hB hbase hpos id)
    (depth_entry_lt_bound hO hours hpos id) (depth_entry_lt_bound hT htheirs hpos id)]

theorem memberVia_congr (h : AgreeBelow d f g) (name : String) (hbase : depthOf base < d)
    (hours : depthOf ours < d) (htheirs : depthOf theirs < d) :
    memberVia f name base ours theirs = memberVia g name base ours theirs := by
  unfold memberVia
  rw [h base ours theirs hbase hours htheirs]

theorem keyVia_congr (h : AgreeBelow d f g) (key : String) (hbase : depthOf base < d)
    (hours : depthOf ours < d) (htheirs : depthOf theirs < d) :
    keyVia f key base ours theirs = keyVia g key base ours theirs := by
  have hpos : 0 < d := Nat.zero_lt_of_lt hbase
  unfold keyVia
  rw [memberVia_congr h key hbase hours htheirs,
    listsVia_congr h (Nat.le_of_lt hbase) (Nat.zero_le _) (Nat.le_of_lt htheirs) hpos,
    listsVia_congr h (Nat.le_of_lt hbase) (Nat.le_of_lt hours) (Nat.zero_le _) hpos]

theorem objectsVia_congr (h : AgreeBelow d f g)
    (hbase : depthOf base ≤ d) (hours : depthOf ours ≤ d) (htheirs : depthOf theirs ≤ d)
    (hpos : 0 < d) : objectsVia f base ours theirs = objectsVia g base ours theirs := by
  refine bind_congr fun B hB => bind_congr fun O hO =>
    bind_congr fun T hT => ?_
  rw [updateKeys_congr fun key _ => keyVia_congr h key (depth_field_lt hB hbase hpos key)
    (depth_field_lt hO hours hpos key) (depth_field_lt hT htheirs hpos key)]

theorem depth₃_le (base ours theirs : Option Json) :
    depthOf base ≤ depth₃ base ours theirs ∧ depthOf ours ≤ depth₃ base ours theirs ∧
      depthOf theirs ≤ depth₃ base ours theirs := by
  unfold depth₃
  omega

theorem depth₃_lt (hbase : depthOf base < d)
    (hours : depthOf ours < d) (htheirs : depthOf theirs < d) : depth₃ base ours theirs < d :=
  Nat.max_lt.2 ⟨hbase, Nat.max_lt.2 ⟨hours, htheirs⟩⟩

/-- Only absent values have depth zero, and two absent values are equal. -/
theorem depth₃_pos (h : jsonEqual ours base = false) : 0 < depth₃ base ours theirs := by
  obtain ⟨hbase, hours, -⟩ := depth₃_le base ours theirs
  cases base with
  | some b => exact Nat.lt_of_lt_of_le b.depth_pos hbase
  | none =>
    cases ours with
    | some o => exact Nat.lt_of_lt_of_le o.depth_pos hours
    | none => cases h

theorem valuesVia_congr (h : AgreeBelow (depth₃ base ours theirs) f g) :
    valuesVia f base ours theirs = valuesVia g base ours theirs := by
  unfold valuesVia
  by_cases hours : jsonEqual ours base = true
  · rw [if_pos hours, if_pos hours]
  · have hpos : 0 < depth₃ base ours theirs := depth₃_pos (by simpa using hours)
    obtain ⟨hb, ho, ht⟩ := depth₃_le base ours theirs
    rw [objectsVia_congr h hb ho ht hpos, listsVia_congr h hb ho ht hpos]

end Congr

private theorem valuesWithin_stable :
    ∀ (m n : Nat) (base ours theirs : Option Json), depth₃ base ours theirs < m →
      depth₃ base ours theirs < n →
      valuesWithin m base ours theirs = valuesWithin n base ours theirs := by
  intro m
  induction m with
  | zero =>
    intro n base ours theirs hm
    exact absurd hm (Nat.not_lt_zero _)
  | succ m ih =>
    intro n base ours theirs hm hn
    cases n with
    | zero => exact absurd hn (Nat.not_lt_zero _)
    | succ n =>
      refine valuesVia_congr fun b o t hb ho ht => ?_
      have hlt := depth₃_lt hb ho ht
      exact ih n b o t (by omega) (by omega)

/-- **The recursive equation of the merge.**  No bound on the nesting is left
in it. -/
theorem mergeMetadataValues_eq (base ours theirs : Option Json) :
    mergeMetadataValues base ours theirs = valuesVia mergeMetadataValues base ours theirs := by
  exact valuesVia_congr fun b o t hb ho ht =>
    valuesWithin_stable _ _ b o t (depth₃_lt hb ho ht) (Nat.lt_succ_self _)

/-- What holds of values once it holds of all that are nested less deep holds of all values. -/
theorem depth₃_induction {P : Option Json → Option Json → Option Json → Prop}
    (h : ∀ base ours theirs, (∀ b o t, depthOf b < depth₃ base ours theirs →
      depthOf o < depth₃ base ours theirs → depthOf t < depth₃ base ours theirs → P b o t) →
      P base ours theirs) (base ours theirs : Option Json) : P base ours theirs := by
  induction hd : depth₃ base ours theirs using Nat.strong_induction_on
    generalizing base ours theirs with
  | _ d ih =>
    subst hd
    exact h base ours theirs fun b o t hb ho ht => ih _ (depth₃_lt hb ho ht) b o t rfl

end Flow.Ports.MetadataMerge
