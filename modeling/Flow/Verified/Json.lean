import Mathlib.Algebra.Order.Ring.Int
import Mathlib.Data.List.AList
import Mathlib.Data.List.Sort

/-!
# JSON texts and the maps they decode to

A JSON text as an encoder writes it: compact, each string in its one escaped
form, numbers kept as the literal that was read.  Two such texts have the
same bytes exactly when they are the same tree, members in the same order, so
`Json` equality stands for byte equality; `Json.same` decides it.

An object decodes to a finite map, the last of two members with one key
winning, and a map encodes to an object whose keys are sorted.  The map is
Mathlib's `AList`, which carries that its keys are distinct.
-/

namespace Flow.Verified

open List Option

/-- A number literal: sign, integer digits, and what follows them (fraction
and exponent, empty for an integer literal). -/
structure JsonNumber where
  negative : Bool
  integer : Nat
  tail : String
deriving DecidableEq, Repr

inductive Json where
  | null
  | bool (b : Bool)
  | number (n : JsonNumber)
  | string (s : String)
  | array (items : List Json)
  | object (members : List (String × Json))
deriving Repr

mutual

/-- Whether two texts have the same bytes. -/
def Json.same : Json → Json → Bool
  | .null, .null => true
  | .bool a, .bool b => a == b
  | .number a, .number b => a == b
  | .string a, .string b => a == b
  | .array as, .array bs => Json.sameItems as bs
  | .object as, .object bs => Json.sameMembers as bs
  | _, _ => false

def Json.sameItems : List Json → List Json → Bool
  | [], [] => true
  | a :: as, b :: bs => Json.same a b && Json.sameItems as bs
  | _, _ => false

def Json.sameMembers : List (String × Json) → List (String × Json) → Bool
  | [], [] => true
  | (j, a) :: as, (k, b) :: bs => j == k && Json.same a b && Json.sameMembers as bs
  | _, _ => false

end

mutual

theorem Json.same_iff : ∀ a b : Json, Json.same a b ↔ a = b
  | .null, b => by cases b <;> simp [Json.same]
  | .bool a, b => by cases b <;> simp [Json.same]
  | .number a, b => by cases b <;> simp [Json.same]
  | .string a, b => by cases b <;> simp [Json.same]
  | .array as, b => by
      cases b with
      | array bs => simp [Json.same, Json.sameItems_iff as bs]
      | _ => simp [Json.same]
  | .object as, b => by
      cases b with
      | object bs => simp [Json.same, Json.sameMembers_iff as bs]
      | _ => simp [Json.same]

theorem Json.sameItems_iff : ∀ as bs : List Json, Json.sameItems as bs ↔ as = bs
  | [], bs => by cases bs <;> simp [Json.sameItems]
  | a :: as, bs => by
      cases bs with
      | nil => simp [Json.sameItems]
      | cons b bs => simp [Json.sameItems, Json.same_iff a b, Json.sameItems_iff as bs]

theorem Json.sameMembers_iff : ∀ as bs : List (String × Json), Json.sameMembers as bs ↔ as = bs
  | [], bs => by cases bs <;> simp [Json.sameMembers]
  | (j, a) :: as, bs => by
      cases bs with
      | nil => simp [Json.sameMembers]
      | cons b bs =>
        simp [Json.sameMembers, Json.same_iff a b.2, Json.sameMembers_iff as bs, Prod.ext_iff]

end

instance : DecidableEq Json := fun a b => decidable_of_iff _ (Json.same_iff a b)

def maxInt64 : Int := 2 ^ 63 - 1

def minInt64 : Int := -2 ^ 63

/-- The signed integer digits of a literal. -/
def JsonNumber.value (n : JsonNumber) : Int :=
  if n.negative then -(n.integer : Int) else n.integer

/-- A base-10 parse into 64 bits; a fraction, an exponent or a value out of
range does not parse. -/
def JsonNumber.parseInt (n : JsonNumber) : Option Int :=
  if n.tail = "" ∧ minInt64 ≤ n.value ∧ n.value ≤ maxInt64 then some n.value else none

/-- The literal a formatter writes for an integer. -/
def JsonNumber.formatInt (value : Int) : JsonNumber :=
  { negative := decide (value < 0), integer := value.natAbs, tail := "" }

@[simp] theorem JsonNumber.value_formatInt (value : Int) :
    (JsonNumber.formatInt value).value = value := by
  unfold JsonNumber.value JsonNumber.formatInt
  by_cases hneg : value < 0
  · simp only [hneg, decide_true, if_true]
    omega
  · simp only [hneg, decide_false, Bool.false_eq_true, if_false]
    omega

theorem JsonNumber.parseInt_formatInt {value : Int} (hmin : minInt64 ≤ value)
    (hmax : value ≤ maxInt64) :
    (JsonNumber.formatInt value).parseInt = some value := by
  unfold JsonNumber.parseInt
  rw [JsonNumber.value_formatInt, if_pos ⟨rfl, hmin, hmax⟩]

theorem JsonNumber.parseInt_range {n : JsonNumber} {value : Int}
    (h : n.parseInt = some value) : minInt64 ≤ value ∧ value ≤ maxInt64 := by
  unfold JsonNumber.parseInt at h
  simp only [ite_none_right_eq_some, some.injEq] at h
  obtain ⟨⟨_, hmin, hmax⟩, rfl⟩ := h
  exact ⟨hmin, hmax⟩

/-- A decoded object. -/
abbrev Fields := AList (fun _ : String => Json)

/-- Decode the members of an object; a later member replaces an earlier one
with its key. -/
def unmarshalMap (members : List (String × Json)) : Fields :=
  members.foldl (fun fields member => fields.insert member.1 member.2) ∅

def sortedMembers (fields : Fields) : List (String × Json) :=
  (fields.entries.map fun e => (e.1, e.2)).insertionSort fun a b => a.1 ≤ b.1

/-- Encode a map: one member a key, the keys sorted. -/
def marshalMap (fields : Fields) : Json :=
  .object (sortedMembers fields)

def asEntry (member : String × Json) : Sigma fun _ : String => Json :=
  ⟨member.1, member.2⟩

private theorem lookup_foldl_insert (key : String) (members : List (String × Json)) :
    ∀ fields : Fields, (members.foldl (fun fields member => fields.insert member.1 member.2)
          fields).lookup key =
        ((members.reverse.map asEntry).dlookup key).or (fields.lookup key) := by
  induction members with
  | nil => simp
  | cons m members ih =>
    intro fields
    rw [List.foldl_cons, ih, List.reverse_cons, List.map_append, List.dlookup_append]
    by_cases hkey : key = m.1
    · subst hkey
      simp [asEntry]
    · rw [AList.lookup_insert_ne hkey]
      simp [asEntry, hkey]

/-- A key has the value of its last member. -/
theorem lookup_unmarshalMap (key : String) (members : List (String × Json)) :
    (unmarshalMap members).lookup key = (members.reverse.map asEntry).dlookup key := by
  rw [unmarshalMap, lookup_foldl_insert, AList.lookup_empty, or_none]

/-- **Encoding a map and decoding it again gives every key its value back.** -/
theorem lookup_unmarshalMap_sortedMembers (key : String) (fields : Fields) :
    (unmarshalMap (sortedMembers fields)).lookup key = fields.lookup key := by
  have hentries : (fields.entries.map fun e => (e.1, e.2)).map asEntry =
      fields.entries := by
    rw [List.map_map]
    exact List.map_id _
  have hperm : (fields.entries.map fun e => (e.1, e.2)).Perm
      (sortedMembers fields).reverse :=
    ((reverse_perm _).trans (perm_insertionSort _ _)).symm
  have hsorted := hperm.map asEntry
  rw [hentries] at hsorted
  rw [lookup_unmarshalMap]
  exact (perm_dlookup key fields.nodupKeys hsorted).symm

mutual

/-- How deeply a value nests; an absent value counts as `0`. -/
def Json.depth : Json → Nat
  | .array items => Json.depthItems items + 1
  | .object members => Json.depthMembers members + 1
  | _ => 1

def Json.depthItems : List Json → Nat
  | [] => 0
  | item :: items => max item.depth (Json.depthItems items)

def Json.depthMembers : List (String × Json) → Nat
  | [] => 0
  | (_, value) :: members => max value.depth (Json.depthMembers members)

end

def depthOf : Option Json → Nat
  | none => 0
  | some value => value.depth

theorem Json.depth_pos (value : Json) : 0 < value.depth := by
  cases value with
  | array items | object members => exact Nat.succ_pos _
  | _ => exact Nat.one_pos

theorem Json.depth_item_lt {item : Json} {items : List Json} (h : item ∈ items) :
    item.depth < (Json.array items).depth := by
  have hle : item.depth ≤ Json.depthItems items := by
    induction items with
    | nil => cases h
    | cons first items ih =>
      rcases mem_cons.1 h with rfl | hmem
      · exact Nat.le_max_left _ _
      · exact Nat.le_trans (ih hmem) (Nat.le_max_right _ _)
  exact Nat.lt_succ_of_le hle

private theorem depth_member_lt {key : String} {value : Json}
    {members : List (String × Json)} (h : (key, value) ∈ members) :
    value.depth < (Json.object members).depth := by
  have hle : value.depth ≤ Json.depthMembers members := by
    induction members with
    | nil => cases h
    | cons first members ih =>
      rcases mem_cons.1 h with rfl | hmem
      · exact Nat.le_max_left _ _
      · exact Nat.le_trans (ih hmem) (Nat.le_max_right _ _)
  exact Nat.lt_succ_of_le hle

theorem depth_lookup_lt (key : String) (members : List (String × Json)) :
    depthOf ((unmarshalMap members).lookup key) < (Json.object members).depth := by
  cases hget : (unmarshalMap members).lookup key with
  | none =>
    exact Nat.succ_pos _
  | some value =>
    rw [lookup_unmarshalMap] at hget
    have hmem := of_mem_dlookup (mem_def.2 hget)
    obtain ⟨⟨k, v⟩, hkv, heq⟩ := mem_map.1 hmem
    cases heq
    exact depth_member_lt (mem_reverse.1 hkv)

end Flow.Verified
