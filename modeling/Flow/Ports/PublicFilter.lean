import Mathlib.Data.List.Infix
import Flow.Verified.Json
import Flow.Verified.Rfc3339

/-!
# Comparators of the public filter language

A filter of the public lists compares the fields of an item with operands.  A list
matches when one of its elements does, and a relation is compared by its id.  The
negative comparators are handled in two ways: over a list by a table that gives the
positive form of each, elsewhere by a comparison of their own.

The two agree where there is a text to compare.  On any other value a comparator of
texts and its negation both fail (`neither_on_null`).
-/

namespace Flow.Ports.PublicFilter

open Flow.Verified

inductive Value where
  | null
  | text (text : String)
  | bool (value : Bool)
  | number (number : Float)
  | time (instant : Int)
  | list (items : List Value)
  | relation (fields : List (String × Value))

inductive Comparator where
  | eq | neq | in | nin | lt | lte | gt | gte
  | eqIgnoreCase | neqIgnoreCase
  | startsWith | startsWithIgnoreCase | notStartsWith | endsWith | notEndsWith
  | contains | notContains | containsIgnoreCase | notContainsIgnoreCase
  | null | every | some
  | field (name : String)
deriving DecidableEq

def comparators : List (String × Comparator) :=
  [("eq", .eq), ("neq", .neq), ("in", .in), ("nin", .nin), ("lt", .lt), ("lte", .lte),
    ("gt", .gt), ("gte", .gte), ("eqIgnoreCase", .eqIgnoreCase),
    ("neqIgnoreCase", .neqIgnoreCase), ("startsWith", .startsWith),
    ("startsWithIgnoreCase", .startsWithIgnoreCase), ("notStartsWith", .notStartsWith),
    ("endsWith", .endsWith), ("notEndsWith", .notEndsWith), ("contains", .contains),
    ("notContains", .notContains), ("containsIgnoreCase", .containsIgnoreCase),
    ("notContainsIgnoreCase", .notContainsIgnoreCase), ("null", .null), ("every", .every),
    ("some", .some)]

def Comparator.ofName (name : String) : Comparator := (comparators.lookup name).getD (.field name)

def negativeComparator : Comparator → Option Comparator
  | .neq => some .eq
  | .nin => some .in
  | .neqIgnoreCase => some .eqIgnoreCase
  | .notContains => some .contains
  | .notContainsIgnoreCase => some .containsIgnoreCase
  | .notStartsWith => some .startsWith
  | .notEndsWith => some .endsWith
  | _ => none

/-- `^[a-z][A-Za-z0-9]*$`. -/
def isNestedFieldName (name : String) : Bool :=
  name.toList.head?.any Char.isLower && name.toList.all Char.isAlphanum

/-- How texts are read. -/
structure Reader where
  toLower : String → String
  parseFloat : String → Option Float
  /-- A number literal. -/
  parseNumber : JsonNumber → Option Float
  /-- `parseFilterTime`, at the time of the request. -/
  parseFilterTime : String → Option Int

/-- `json.Unmarshal` into a variable, which `null` leaves at its default. -/
def decodeBool : Json → Option Bool
  | .bool value => some value
  | .null => some false
  | _ => none

def decodeString : Json → Option String
  | .string text => some text
  | .null => some ""
  | _ => none

def decodeList : Json → Option (List Json)
  | .array items => some items
  | .null => some []
  | _ => none

variable (reader : Reader)

def decodeFloat : Json → Option Float
  | .number literal => reader.parseNumber literal
  | .null => some 0
  | .string text => reader.parseFloat text
  | _ => none

def compareFilterValue (operand : Json) : Value → Option Ordering
  | .null => if operand = .null then some .eq else none
  | .text text => (decodeString operand).map (compare text)
  | .bool value => (decodeBool operand).map (compare value)
  | .number number => (decodeFloat reader operand).map fun target =>
    if number < target then .lt else if number > target then .gt else .eq
  | .time instant => ((decodeString operand).bind reader.parseFilterTime).bind fun target =>
    if instant = Rfc3339.zeroTime then none else some (compare instant target)
  | _ => none

def filterValueEmpty : Value → Bool
  | .null => true
  | .text text => text = ""
  | .time instant => instant = Rfc3339.zeroTime
  | .list items => items.isEmpty
  | .relation fields =>
    match fields.lookup "id" with
    | some (.text id) => id = ""
    | _ => true
  | _ => false

/-! ## Matching -/

def matchesText (text target : String) : Comparator → Bool
  | .eqIgnoreCase => reader.toLower text = reader.toLower target
  | .neqIgnoreCase => reader.toLower text ≠ reader.toLower target
  | .startsWith => target.toList <+: text.toList
  | .startsWithIgnoreCase => (reader.toLower target).toList <+: (reader.toLower text).toList
  | .notStartsWith => ¬target.toList <+: text.toList
  | .endsWith => target.toList <:+ text.toList
  | .notEndsWith => ¬target.toList <:+ text.toList
  | .contains => target.toList <:+: text.toList
  | .notContains => ¬target.toList <:+: text.toList
  | .containsIgnoreCase => (reader.toLower target).toList <:+: (reader.toLower text).toList
  | .notContainsIgnoreCase => ¬(reader.toLower target).toList <:+: (reader.toLower text).toList
  | _ => false

/-- `matchesComparator` on a value that is neither a list nor a relation. -/
def matchesScalar (operand : Json) (comparator : Comparator) (value : Value) : Bool :=
  let order := compareFilterValue reader operand value
  match comparator, value with
  | .in, _ => (decodeList operand).any fun options =>
    options.any (compareFilterValue reader · value = some .eq)
  | .nin, _ => (decodeList operand).any fun options =>
    !options.any (compareFilterValue reader · value = some .eq)
  | .eq, _ => order = some .eq
  | .neq, _ => order ≠ some .eq
  | .lt, _ => order.any Ordering.isLT
  | .lte, _ => order.any Ordering.isLE
  | .gt, _ => order.any Ordering.isGT
  | .gte, _ => order.any Ordering.isGE
  | comparator, .text text => (decodeString operand).any (matchesText reader text · comparator)
  | _, _ => false

section Comparator

variable (operand : Json) (inner : Value → Bool)

mutual

/-- `matchesComparator`, given `matchesComparison` for its operand. -/
def matchesWith : Comparator → Value → Bool
  | .null, value => (decodeBool operand).any (filterValueEmpty value = ·)
  | .every, .list items => items.all inner
  | .some, .list items => items.any inner
  | .every, value => inner value
  | .some, value => inner value
  | comparator, .list items =>
    match negativeComparator comparator with
    | some positive => !matchesAny positive items
    | none => matchesAny comparator items
  | .field name, .relation fields =>
    if isNestedFieldName name then inner ((fields.lookup name).getD .null)
    else matchesID (.field name) fields
  | comparator, .relation fields => matchesID comparator fields
  | comparator, value => matchesScalar reader operand comparator value

def matchesAny (comparator : Comparator) : List Value → Bool
  | [] => false
  | item :: items => matchesWith comparator item || matchesAny comparator items

def matchesID (comparator : Comparator) : List (String × Value) → Bool
  | [] => matchesScalar reader operand comparator .null
  | (name, value) :: fields =>
    if name = "id" then matchesWith comparator value else matchesID comparator fields

end

end Comparator

mutual

def matchesComparison (value : Value) : Json → Bool
  | .object members => matchesMembers value members
  | .null => true
  | _ => false

/-- Every comparator of an object; of two with one name the last counts. -/
def matchesMembers (value : Value) : List (String × Json) → Bool
  | [] => true
  | (name, operand) :: rest =>
    (rest.any (·.1 = name) || matchesWith reader operand
      (fun value => matchesComparison value operand) (.ofName name) value) &&
      matchesMembers value rest

end

def matchesComparator (value : Value) (comparator : Comparator) (operand : Json) : Bool :=
  matchesWith reader operand (matchesComparison reader · operand) comparator value

/-! ## Negation -/

mutual

def Value.comparesText : Value → Bool
  | .text _ | .list _ => true
  | .relation fields => idComparesText fields
  | _ => false

def idComparesText : List (String × Value) → Bool
  | [] => false
  | (name, value) :: fields => if name = "id" then value.comparesText else idComparesText fields

end

/-- The comparator is defined for values that are not texts as well. -/
def Comparator.general : Comparator → Bool
  | .eq | .in => true
  | _ => false

/-- The operand is one that the positive comparator can read. -/
def wellTyped (operand : Json) : Comparator → Bool
  | .eq => true
  | .in => (decodeList operand).isSome
  | _ => (decodeString operand).isSome

section Negation

variable {reader} {operand : Json} {comparator positive : Comparator}

/-- Where no text is compared, a comparator of texts and its negation both fail. -/
theorem matchesScalar_negative (reader : Reader) (h : negativeComparator comparator = some positive)
    (hoperand : wellTyped operand positive) (value : Value) :
    matchesScalar reader operand comparator value = (!matchesScalar reader operand positive value) ↔
      (positive.general || match value with | .text _ => true | _ => false) := by
  cases comparator <;> cases h
  case neq => simp [matchesScalar, Comparator.general]
  case nin =>
    obtain ⟨options, hoptions⟩ := Option.isSome_iff_exists.mp hoperand
    simp [matchesScalar, hoptions, Comparator.general]
  all_goals
    obtain ⟨target, htarget⟩ := Option.isSome_iff_exists.mp hoperand
    cases value <;> simp [matchesScalar, matchesText, htarget, Comparator.general]

variable {inner : Value → Bool}

mutual

theorem matchesWith_negative (h : negativeComparator comparator = some positive)
    (hoperand : wellTyped operand positive) :
    ∀ value, matchesWith reader operand inner comparator value =
        (!matchesWith reader operand inner positive value) ↔
      (positive.general || value.comparesText)
  | .relation fields => by
    have hid := matchesID_negative h hoperand fields
    cases comparator <;> cases h <;> simpa [matchesWith, Value.comparesText] using hid
  | .list items => by
    cases comparator <;> cases h <;>
      simp [matchesWith, negativeComparator, Value.comparesText]
  | .null | .text _ | .bool _ | .number _ | .time _ => by
    have hscalar := matchesScalar_negative reader h hoperand
    cases comparator <;> cases h <;> simp only [matchesWith, hscalar, Value.comparesText]

theorem matchesID_negative (h : negativeComparator comparator = some positive)
    (hoperand : wellTyped operand positive) :
    ∀ fields, matchesID reader operand inner comparator fields =
        (!matchesID reader operand inner positive fields) ↔
      (positive.general || idComparesText fields)
  | [] => by
    simp only [matchesID, idComparesText]
    exact matchesScalar_negative reader h hoperand .null
  | (name, value) :: fields => by
    simp only [matchesID, idComparesText]
    split
    · exact matchesWith_negative h hoperand value
    · exact matchesID_negative h hoperand fields

end

/-- **A negative comparator is the complement of its positive form** exactly when the
form is not about texts alone, or a text or a list is compared. -/
theorem negative_iff (h : negativeComparator comparator = some positive)
    (hoperand : wellTyped operand positive) (value : Value) :
    matchesComparator reader value comparator operand =
        (!matchesComparator reader value positive operand) ↔
      positive.general ∨ value.comparesText := by
  rw [← Bool.or_eq_true]
  exact matchesWith_negative h hoperand value

end Negation

/-- A reader of texts in one case, without numbers and times. -/
def plainReader : Reader := ⟨id, fun _ => none, fun _ => none, fun _ => none⟩

/-- Over a list of labels, `notContains` says that no label contains the text. -/
theorem negative_iff_labels :
    negativeComparator .notContains = some .contains ∧ wellTyped (.string "bug") .contains ∧
      matchesComparator plainReader (.list [.text "a", .null]) .notContains (.string "bug") =
        !matchesComparator plainReader (.list [.text "a", .null]) .contains (.string "bug") :=
  ⟨rfl, by decide, (negative_iff rfl (by decide) _).mpr (.inr rfl)⟩

/-- A value that is missing does not contain the text, and `notContains` fails. -/
theorem neither_on_null : wellTyped (.string "bug") .contains ∧
    matchesComparator plainReader .null .contains (.string "bug") = false ∧
      matchesComparator plainReader .null .notContains (.string "bug") = false := by
  decide

end Flow.Ports.PublicFilter
