import Mathlib.Data.List.DropRight
import Mathlib.Data.List.MinMax
import Mathlib.Data.List.Nodup
import Flow.Verified.JsonText
import Flow.Verified.Run

/-!
# Slugs of projects and initiatives

A slug reads `<name>-<12 hex>`, and keeps its suffix when the name changes.  A link names a
record by its id or slug, by the suffix, or by one of the last twenty slugs.  A slug with a
suffix names its record for good, a name-only one until twenty newer slugs are remembered
(`first_slug_forgotten`).

The loops of the server and the web find the first record that a link names best, except
that the server overlooks a suffix in capitals (`capital_suffix_overlooked`).
-/

namespace Flow.Ports.ResourceSlug

open Flow.Verified.Run List

abbrev Text := List Char

def hexDigits : Text := "0123456789abcdef".toList

/-- What the slugs use of the character tables. -/
structure Unicode where
  isSpace : Char → Bool
  isLetterOrDigit : Char → Bool
  toLower : Char → Char
  plain : ∀ c ∈ '-' :: hexDigits, isSpace c = false ∧ toLower c = c

/-- The tables on ASCII texts, for the server and the web alike. -/
def ascii : Unicode where
  isSpace c := c ∈ [' ', '\t', '\n', '\x0b', '\x0c', '\r']
  isLetterOrDigit := Char.isAlphanum
  toLower := Char.toLower
  plain := Verified.JsonText.forall_mem_of_all (by decide)

variable (u : Unicode)

def trimSpace (text : Text) : Text := (text.dropWhile u.isSpace).rdropWhile u.isSpace

def trimDashes (text : Text) : Text := (text.dropWhile (· = '-')).rdropWhile (· = '-')

def slugify (value : Text) : Text :=
  let builder := ((trimSpace u value).map u.toLower).foldl (fun (builder, lastDash) character =>
    if u.isLetterOrDigit character then (builder ++ [character], false)
    else if builder ≠ [] ∧ ¬ lastDash then (builder ++ ['-'], true)
    else (builder, lastDash)) (([] : Text), false)
  trimDashes builder.1

def slugWithSuffix (name suffix : Text) : Text :=
  let base := slugify u name
  let base := if base.length > 60 then trimDashes (base.take 60) else base
  (if base = [] then "untitled".toList else base) ++ '-' :: suffix

def isSlugSuffix (value : Text) : Bool := value.length = 12 && value.all (· ∈ hexDigits)

/-- Of a new suffix, or one derived from the id, only its form is used. -/
abbrev Suffix := { value : Text // isSlugSuffix value }

def slugSuffix (slugID : Text) : Text :=
  let slugID := (trimSpace u slugID).map u.toLower
  if isSlugSuffix slugID then slugID
  else
    -- what follows the last dash
    let tail := slugID.rtakeWhile (· ≠ '-')
    if '-' ∉ slugID ∨ ¬ isSlugSuffix tail then [] else tail

def previousSlugLimit : Nat := 20

def rememberSlug (previous : List Text) (old next : Text) : List Text :=
  let previous :=
    if old ≠ [] ∧ old ≠ next ∧ ¬ previous.contains old then
      let previous := previous ++ [old]
      if previous.length > previousSlugLimit then
        previous.drop (previous.length - previousSlugLimit)
      else previous
    else previous
  previous.filter (· ≠ next)

structure SlugRecord where
  id : Text
  slugID : Text
  previousSlugIDs : List Text
deriving DecidableEq, Repr

/-- `RenamedSlug`, with the suffix for a slug that has none. -/
def renamedSlug (r : SlugRecord) (name : Text) (fresh : Suffix) : SlugRecord :=
  let suffix := if slugSuffix u r.slugID = [] then fresh.1 else slugSuffix u r.slugID
  let next := slugWithSuffix u name suffix
  ⟨r.id, next, rememberSlug r.previousSlugIDs r.slugID next⟩

/-- `StableSlug`, which gives a slug without a suffix the one of the id. -/
def stableSlug (r : SlugRecord) (name : Text) (derived : Suffix) : SlugRecord :=
  if slugSuffix u r.slugID ≠ [] then r else renamedSlug u r name derived

inductive SlugChange where
  | rename (name : Text) (fresh : Suffix)
  | migrate (name : Text) (derived : Suffix)

def SlugRecord.apply (r : SlugRecord) : SlugChange → SlugRecord
  | .rename name fresh => renamedSlug u r name fresh
  | .migrate name derived => stableSlug u r name derived

def changeSlug (r : SlugRecord) (change : SlugChange) : Option SlugRecord := some (r.apply u change)

/-- The change remembers the current slug, and gives up `slug`, which is not among the last
nineteen, for it. -/
def Forgets (slug : Text) (r : SlugRecord) (change : SlugChange) : Prop :=
  r.previousSlugIDs.contains slug ∧ ¬ (r.previousSlugIDs.rtake 19).contains slug ∧
    r.slugID ≠ [] ∧ ¬ r.previousSlugIDs.contains r.slugID ∧
    (r.apply u change).slugID ≠ r.slugID

/-- The change does not give up a name-only slug. -/
def Remembers (first : Text) (r : SlugRecord) (change : SlugChange) : Prop :=
  slugSuffix u first = [] → ¬ Forgets u first r change

instance (first : Text) (r : SlugRecord) (change : SlugChange) :
    Decidable (Remembers u first r change) :=
  inferInstanceAs (Decidable (_ → ¬ (_ ∧ _ ∧ _ ∧ _ ∧ _)))

/-- How a link names a record, worst first. -/
inductive SlugMatch where
  | noMatch
  | previous
  | suffix
  | exact
deriving DecidableEq, Repr

def SlugMatch.rank : SlugMatch → Nat
  | noMatch => 0
  | previous => 1
  | suffix => 2
  | exact => 3

def matchSlugRef (ref : Text) (r : SlugRecord) : SlugMatch :=
  let ref := trimSpace u ref
  if ref = [] then .noMatch
  else if ref = r.id ∨ ref = r.slugID then .exact
  else if slugSuffix u ref ≠ [] ∧ slugSuffix u ref = slugSuffix u r.slugID then .suffix
  else if r.previousSlugIDs.contains ref then .previous
  else .noMatch

/-! ## Links and renames -/

section Renames

variable {u} {text base slug old next first : Text} {previous : List Text}
  {r start mid last : SlugRecord} {change : SlugChange}

theorem isSlugSuffix_slugSuffix (h : slugSuffix u text ≠ []) :
    isSlugSuffix (slugSuffix u text) := by
  unfold slugSuffix at h ⊢
  grind

theorem trimSpace_append {suffix : Text} (hsuffix : ∀ c ∈ '-' :: suffix, u.isSpace c = false) :
    trimSpace u (base ++ '-' :: suffix) = base.dropWhile u.isSpace ++ '-' :: suffix := by
  have hdrop : (base ++ '-' :: suffix).dropWhile u.isSpace =
      base.dropWhile u.isSpace ++ '-' :: suffix := by
    rw [dropWhile_append]
    split <;> simp_all
  unfold trimSpace
  rw [hdrop, rdropWhile_eq_self_iff]
  intro hne
  rw [getLast_append_of_ne_nil _ (cons_ne_nil _ _), hsuffix _ (getLast_mem _)]
  exact Bool.false_ne_true

/-- The suffix of a slug is what it was built with. -/
theorem slugSuffix_slugWithSuffix (name : Text) (suffix : Suffix) :
    slugSuffix u (slugWithSuffix u name suffix) = suffix := by
  obtain ⟨base, hbase⟩ : ∃ base, slugWithSuffix u name suffix = base ++ '-' :: suffix.1 := ⟨_, rfl⟩
  rw [hbase]
  obtain ⟨suffix, hsuffix⟩ := suffix
  have hhex : ∀ c ∈ suffix, c ∈ hexDigits := by simpa using (Bool.and_eq_true_iff.mp hsuffix).2
  have hplain : ∀ c ∈ '-' :: suffix, u.isSpace c = false ∧ u.toLower c = c :=
    fun c hc => u.plain c (cons_subset_cons '-' hhex hc)
  have hdash : ∀ c ∈ suffix, c ≠ '-' := by
    rintro c hc rfl
    exact absurd (hhex _ hc) (by decide)
  have hlower : ('-' :: suffix).map u.toLower = '-' :: suffix :=
    (map_congr_left fun c hc => (hplain c hc).2).trans (map_id _)
  have htail (before : Text) : (before ++ '-' :: suffix).rtakeWhile (· ≠ '-') = suffix := by
    rw [rtakeWhile, reverse_append, reverse_cons, append_assoc,
      takeWhile_append_of_pos (by simpa using hdash)]
    simp
  have hwhole (before : Text) : isSlugSuffix (before ++ '-' :: suffix) = false := by
    simp [isSlugSuffix, show '-' ∉ hexDigits by decide]
  unfold slugSuffix
  rw [trimSpace_append fun c hc => (hplain c hc).1, map_append, hlower]
  simp only [hwhole, htail]
  simp [hsuffix]

theorem trimSpace_trimSpace : trimSpace u (trimSpace u text) = trimSpace u text := by
  have hdrop : (trimSpace u text).dropWhile u.isSpace = trimSpace u text := by
    cases htrim : trimSpace u text with
    | nil => rfl
    | cons c rest =>
      obtain ⟨_, hprefix⟩ : c :: rest <+: text.dropWhile u.isSpace := by
        rw [← htrim]
        exact rdropWhile_prefix _ _
      have hhead := head?_dropWhile_not u.isSpace text
      rw [← hprefix] at hhead
      exact dropWhile_cons_of_neg (by simpa using hhead)
  conv_lhs => rw [trimSpace, hdrop]
  exact rdropWhile_idempotent _ _

theorem apply_cases : (∃ name suffix, r.apply u change = renamedSlug u r name suffix) ∨
    slugSuffix u r.slugID ≠ [] ∧ r.apply u change = r := by
  cases change with
  | rename name fresh => exact .inl ⟨name, fresh, rfl⟩
  | migrate name derived =>
    by_cases h : slugSuffix u r.slugID = []
    · exact .inl ⟨name, derived, if_neg (not_not.mpr h)⟩
    · exact .inr ⟨h, if_pos h⟩

theorem suffix_apply : slugSuffix u (r.apply u change).slugID ≠ [] ∧ (slugSuffix u r.slugID ≠ [] →
      slugSuffix u (r.apply u change).slugID = slugSuffix u r.slugID) := by
  rcases apply_cases with ⟨name, fresh, happly⟩ | ⟨h, happly⟩
  · have hne : fresh.1 ≠ [] := fun h => absurd (h ▸ fresh.2) (by decide)
    rw [happly]
    by_cases h : slugSuffix u r.slugID = []
    · simp [renamedSlug, h, slugSuffix_slugWithSuffix, hne]
    · have hsuffix := slugSuffix_slugWithSuffix (u := u) name ⟨_, isSlugSuffix_slugSuffix h⟩
      simp [renamedSlug, h, hsuffix]
  · simp [happly, h]

/-- The suffix names the record that has it. -/
theorem match_of_suffix (h : slugSuffix u slug ≠ [])
    (hsuffix : slugSuffix u r.slugID = slugSuffix u slug) : matchSlugRef u slug r ≠ .noMatch := by
  have htrim : slugSuffix u (trimSpace u slug) = slugSuffix u slug := by
    unfold slugSuffix
    rw [trimSpace_trimSpace]
  have hne : trimSpace u slug ≠ [] := fun hempty => h (by simp [slugSuffix, hempty])
  unfold matchSlugRef
  rw [if_neg hne, htrim, if_pos (c := _ ∧ _) ⟨h, hsuffix.symm⟩]
  split <;> nofun

/-- So does a slug that is remembered. -/
theorem match_of_mem (htrim : trimSpace u slug = slug) (hne : slug ≠ [])
    (h : slug = r.slugID ∨ slug ∈ r.previousSlugIDs) : matchSlugRef u slug r ≠ .noMatch := by
  unfold matchSlugRef
  grind

theorem suffix_of_reaches (hrun : Reaches (changeSlug u) (Remembers u first) mid last)
    (h : slugSuffix u mid.slugID ≠ []) : slugSuffix u last.slugID = slugSuffix u mid.slugID := by
  refine hrun.invariant (P := fun r => slugSuffix u r.slugID = slugSuffix u mid.slugID) ?_ rfl
  intro r change r' hr _ hstep
  cases hstep
  exact (suffix_apply.2 (hr ▸ h)).trans hr

/-- The current slug stays, and so do the last nineteen, or all where none is added. -/
theorem mem_rememberSlug (hnext : slug ≠ next)
    (h : slug = old ∧ slug ≠ [] ∨ slug ∈ previous ∧
      (slug ∈ previous.rtake 19 ∨ old = [] ∨ old ∈ previous ∨ next = old)) :
    slug ∈ rememberSlug previous old next := by
  unfold rememberSlug
  refine mem_filter.mpr ⟨?_, by simpa using hnext⟩
  by_cases hnew : old ≠ [] ∧ old ≠ next ∧ ¬ previous.contains old
  · rw [if_pos hnew]
    have hmem : slug ∈ previous.rtake 19 ++ [old] := by
      rcases h with ⟨rfl, -⟩ | ⟨-, hlast | hempty | hold | hsame⟩
      · exact mem_append_right _ (mem_singleton.mpr rfl)
      · exact mem_append_left _ hlast
      · exact absurd hempty hnew.1
      · exact absurd (contains_iff_mem.mpr hold) hnew.2.2
      · exact absurd hsame.symm hnew.2.1
    dsimp only
    split
    · rename_i hfull
      rw [length_append, length_singleton] at hfull ⊢
      rw [drop_append_of_le_length (by unfold previousSlugLimit; omega)]
      exact hmem
    · exact (mem_append.mp hmem).elim (fun h => mem_append_left _ (mem_of_mem_drop h))
        (mem_append_right _)
  · rw [if_neg hnew]
    rcases h with ⟨rfl, hne⟩ | ⟨hmem, -⟩
    · by_contra hmem
      exact hnew ⟨hne, hnext, fun h => hmem (contains_iff_mem.mp h)⟩
    · exact hmem

/-- A name-only slug that is not given up is the current one, or remembered. -/
theorem remembered_of_reaches (hslug : slugSuffix u first = []) (hne : first ≠ [])
    (hrun : Reaches (changeSlug u) (Remembers u first) start last) (hstart : first = start.slugID) :
    first = last.slugID ∨ first ∈ last.previousSlugIDs := by
  refine hrun.invariant (P := fun r => first = r.slugID ∨ first ∈ r.previousSlugIDs) ?_
    (.inl hstart)
  intro r change r' hr hok hstep
  cases hstep
  -- the next slug has a suffix
  have hnext : first ≠ (r.apply u change).slugID := fun heq => suffix_apply.1 (heq ▸ hslug)
  rcases apply_cases with ⟨name, fresh, happly⟩ | ⟨-, happly⟩
  · have hkept := hok hslug
    right
    rw [happly] at hnext ⊢
    refine mem_rememberSlug hnext (hr.imp (fun heq => ⟨heq, hne⟩) fun hmem => ⟨hmem, ?_⟩)
    by_contra hlost
    simp only [not_or] at hlost
    refine hkept ⟨contains_iff_mem.mpr hmem, ?_, hlost.2.1, ?_, ?_⟩
    · exact fun h => hlost.1 (contains_iff_mem.mp h)
    · exact fun h => hlost.2.2.1 (contains_iff_mem.mp h)
    · rw [happly]
      exact hlost.2.2.2
  · rw [happly]
    exact hr

def renameTo (name : Char) : SlugChange := .rename [name] ⟨"0123456789ab".toList, by decide⟩

end Renames

/-! ## Links and records -/

/-- The loop of `IndexBySlugRef`, which returns at an exact match. -/
def indexLoop (ref suffix : Text) (best : Option Nat) (bestMatch : SlugMatch) :
    List (SlugRecord × Nat) → Option Nat
  | [] => best
  | (item, index) :: items =>
    if ref = item.id ∨ ref = item.slugID then some index
    else
      let found : SlugMatch :=
        if suffix ≠ [] ∧ bestMatch.rank < 2 ∧ suffix <:+ item.slugID ∧
          slugSuffix u item.slugID = suffix then .suffix
        else if bestMatch.rank < 1 ∧ item.previousSlugIDs.contains ref then .previous
        else .noMatch
      if found.rank > bestMatch.rank then indexLoop ref suffix (some index) found items
      else indexLoop ref suffix best bestMatch items

def indexBySlugRef (items : List SlugRecord) (ref : Text) : Option Nat :=
  let ref := trimSpace u ref
  if ref = [] then none
  else indexLoop u ref (slugSuffix u ref) none .noMatch items.zipIdx

namespace Web

def slugSuffix (slugID : Text) : Option Text :=
  let value := (trimSpace u slugID).map u.toLower
  if isSlugSuffix value then some value
  else
    let tail := value.rtakeWhile (· ≠ '-')
    if '-' ∈ value ∧ isSlugSuffix tail then some tail else none

def slugRefMatch (ref : Text) (record : SlugRecord) : Nat :=
  let value := trimSpace u ref
  if value = [] then 0
  else if record.id = value ∨ record.slugID = value then 3
  else if (slugSuffix u value).isSome ∧ slugSuffix u value = slugSuffix u record.slugID then 2
  else if record.previousSlugIDs.contains value then 1 else 0

/-- The loop of `findBySlugRef`, by how the records match. -/
def findLoop {α : Type} (rank : α → Nat) (best : Option α) (bestMatch : Nat) : List α → Option α
  | [] => best
  | record :: records =>
    if rank record > bestMatch then
      if rank record = 3 then some record else findLoop rank (some record) (rank record) records
    else findLoop rank best bestMatch records

def findBySlugRef {α : Type} (record : α → SlugRecord) (records : List α) (ref : Text) :
    Option α :=
  if ref = [] then none else findLoop (fun r => slugRefMatch u ref (record r)) none 0 records

end Web

section Records

variable {u} {α : Type} {f : α → Nat} {items : List SlugRecord} {ref : Text} {r : SlugRecord}

/-- The loop finds the first record that is matched best, if it is better than the best so
far. -/
theorem findLoop_eq (hf : ∀ a, f a ≤ 3) (best : Option α) (n : Nat) (l : List α) :
    Web.findLoop f best n l = ((l.argmax f).filter (n < f ·)).or best := by
  induction l generalizing best n with
  | nil => rfl
  | cons a l ih =>
    rw [argmax_cons, Web.findLoop]
    cases h : l.argmax f <;> grind

theorem webSuffix_eq (text : Text) : Web.slugSuffix u text =
    if slugSuffix u text = [] then none else some (slugSuffix u text) := by
  have hempty {value : Text} (h : isSlugSuffix value) : value ≠ [] := by
    rintro rfl
    cases h
  let value := (trimSpace u text).map u.toLower
  let tail := value.rtakeWhile (· ≠ '-')
  by_cases hwhole : isSlugSuffix value
  · have hserver : slugSuffix u text = value := if_pos hwhole
    rw [hserver, if_neg (hempty hwhole)]
    exact if_pos hwhole
  · by_cases htail : '-' ∈ value ∧ isSlugSuffix tail
    · have hserver : slugSuffix u text = tail :=
        (if_neg hwhole).trans (if_neg fun h => h.elim (· htail.1) (· htail.2))
      rw [hserver, if_neg (hempty htail.2)]
      exact (if_neg hwhole).trans (if_pos htail)
    · have hserver : slugSuffix u text = [] :=
        (if_neg hwhole).trans (if_pos (not_and_or.mp htail))
      rw [if_pos hserver]
      exact (if_neg hwhole).trans (if_neg htail)

theorem slugRefMatch_eq (r : SlugRecord) :
    Web.slugRefMatch u ref r = (matchSlugRef u ref r).rank := by
  unfold Web.slugRefMatch matchSlugRef
  dsimp only
  by_cases hblank : trimSpace u ref = []
  · rw [if_pos hblank, if_pos hblank]
    rfl
  · rw [if_neg hblank, if_neg hblank]
    by_cases hexact : trimSpace u ref = r.id ∨ trimSpace u ref = r.slugID
    · rw [if_pos hexact, if_pos (by rwa [eq_comm, eq_comm (a := r.slugID)])]
      rfl
    · rw [if_neg hexact, if_neg (by rwa [eq_comm, eq_comm (a := r.slugID)])]
      have hsuffix : ((Web.slugSuffix u (trimSpace u ref)).isSome ∧
          Web.slugSuffix u (trimSpace u ref) = Web.slugSuffix u r.slugID) ↔
          slugSuffix u (trimSpace u ref) ≠ [] ∧
            slugSuffix u (trimSpace u ref) = slugSuffix u r.slugID := by
        rw [webSuffix_eq, webSuffix_eq]
        by_cases href : slugSuffix u (trimSpace u ref) = []
        · simp [href]
        · by_cases hslug : slugSuffix u r.slugID = []
          · simp [href, hslug]
          · simp [href, hslug]
      by_cases hmatch : slugSuffix u (trimSpace u ref) ≠ [] ∧
          slugSuffix u (trimSpace u ref) = slugSuffix u r.slugID
      · rw [if_pos hmatch, if_pos (hsuffix.mpr hmatch)]
        rfl
      · rw [if_neg hmatch, if_neg (hsuffix.not.mpr hmatch)]
        split <;> rfl

/-- The match by its suffix of a record whose slug does not end in it as it stands. -/
def Overlooked (u : Unicode) (ref : Text) (r : SlugRecord) : Prop :=
  matchSlugRef u ref r = .suffix ∧ ¬ slugSuffix u (trimSpace u ref) <:+ r.slugID

/-- The match that `IndexBySlugRef` sees. -/
def seenMatch (u : Unicode) (ref : Text) (r : SlugRecord) : SlugMatch :=
  let ref := trimSpace u ref
  let suffix := slugSuffix u ref
  if ref = r.id ∨ ref = r.slugID then .exact
  else if suffix ≠ [] ∧ suffix <:+ r.slugID ∧ slugSuffix u r.slugID = suffix then .suffix
  else if r.previousSlugIDs.contains ref then .previous
  else .noMatch

theorem seenMatch_cases (href : trimSpace u ref ≠ []) :
    ¬ Overlooked u ref r ∧ seenMatch u ref r = matchSlugRef u ref r ∨
      Overlooked u ref r ∧ seenMatch u ref r =
        if r.previousSlugIDs.contains (trimSpace u ref) then .previous else .noMatch := by
  unfold Overlooked seenMatch matchSlugRef
  simp only [if_neg href]
  by_cases hexact : trimSpace u ref = r.id ∨ trimSpace u ref = r.slugID
  · simp [hexact]
  · simp only [if_neg hexact]
    by_cases hsuffix : slugSuffix u (trimSpace u ref) ≠ [] ∧
        slugSuffix u (trimSpace u ref) = slugSuffix u r.slugID
    · simp only [if_pos hsuffix]
      by_cases hends : slugSuffix u (trimSpace u ref) <:+ r.slugID
      · exact .inl ⟨fun h => h.2 hends, if_pos ⟨hsuffix.1, hends, hsuffix.2.symm⟩⟩
      · exact .inr ⟨⟨trivial, hends⟩, if_neg fun h => hends h.2.1⟩
    · simp only [if_neg hsuffix]
      refine .inl ⟨fun h => ?_, if_neg fun h => hsuffix ⟨h.1, h.2.2.symm⟩⟩
      split at h <;> cases h.1

theorem eq_noMatch_of_rank {m : SlugMatch} (h : m.rank < SlugMatch.previous.rank) :
    m = .noMatch := by
  cases m with
  | noMatch => rfl
  | previous | suffix | exact => exact absurd h (by decide)

theorem seenMatch_le (href : trimSpace u ref ≠ []) :
    (seenMatch u ref r).rank ≤ (matchSlugRef u ref r).rank := by
  rcases seenMatch_cases href with ⟨-, h⟩ | ⟨hoverlooked, h⟩
  · rw [h]
  · rw [h, hoverlooked.1]
    split <;> decide

/-- The server looks for no match that is not better than the best so far. -/
theorem indexLoop_eq {best : Option (SlugRecord × Nat)} {bestMatch : SlugMatch}
    {l : List (SlugRecord × Nat)} (hbest : bestMatch ≠ .exact) :
    indexLoop u (trimSpace u ref) (slugSuffix u (trimSpace u ref)) (best.map Prod.snd) bestMatch l =
      (Web.findLoop (fun item => (seenMatch u ref item.1).rank) best bestMatch.rank l).map
        Prod.snd := by
  induction l generalizing best bestMatch with
  | nil => rfl
  | cons item l ih =>
    obtain ⟨item, index⟩ := item
    unfold indexLoop Web.findLoop
    have hnext (found : SlugMatch) (hfound : found ≠ .exact) :=
      @ih (some (item, index)) found hfound
    by_cases hexact : trimSpace u ref = item.id ∨ trimSpace u ref = item.slugID
    · have hseen : seenMatch u ref item = .exact := if_pos hexact
      have hrank : SlugMatch.exact.rank > bestMatch.rank := by
        cases bestMatch <;> first | contradiction | decide
      simp only [hexact, hseen, if_true, if_pos hrank]
      rfl
    · have hseen : seenMatch u ref item = _ := if_neg hexact
      simp only [hexact, hseen, if_false]
      by_cases hsuffix : slugSuffix u (trimSpace u ref) ≠ [] ∧
          slugSuffix u (trimSpace u ref) <:+ item.slugID ∧
          slugSuffix u item.slugID = slugSuffix u (trimSpace u ref)
      · cases bestMatch with
        | noMatch | previous => simpa [hsuffix, SlugMatch.rank] using hnext .suffix nofun
        | suffix => simpa [hsuffix, SlugMatch.rank] using ih hbest
        | exact => contradiction
      · have hpruned : ¬ (slugSuffix u (trimSpace u ref) ≠ [] ∧ bestMatch.rank < 2 ∧
            slugSuffix u (trimSpace u ref) <:+ item.slugID ∧
            slugSuffix u item.slugID = slugSuffix u (trimSpace u ref)) :=
          fun h => hsuffix ⟨h.1, h.2.2⟩
        simp only [if_neg hsuffix, if_neg hpruned]
        by_cases hprevious : trimSpace u ref ∈ item.previousSlugIDs
        · cases bestMatch with
          | noMatch => simpa [hprevious, SlugMatch.rank] using hnext .previous nofun
          | previous | suffix => simpa [hprevious, SlugMatch.rank] using ih hbest
          | exact => contradiction
        · simpa [hprevious, SlugMatch.rank] using ih hbest

/-- The first of the best, by positions. -/
theorem mem_argmax_iff_position {β : Type} [DecidableEq β] {l : List β} {position f : β → Nat}
    {item : β} (hposition : l.map position = range l.length) :
    item ∈ l.argmax f ↔ item ∈ l ∧ (∀ other ∈ l, f other ≤ f item) ∧
      ∀ other ∈ l, position other < position item → f other < f item := by
  have hnodup : l.Nodup := Nodup.of_map position (hposition ▸ nodup_range)
  have hidx {item : β} (h : item ∈ l) : l.idxOf item = position item := by
    obtain ⟨i, hi, rfl⟩ := getElem_of_mem h
    have hget := congrArg (·[i]?) hposition
    simp only [getElem?_map, getElem?_eq_getElem hi, getElem?_range hi, Option.map_some,
      Option.some.injEq] at hget
    rw [hget]
    exact hnodup.idxOf_getElem i hi
  rw [mem_argmax_iff]
  refine and_congr_right fun hitem => and_congr_right fun hmax =>
    forall₂_congr fun other hother => ?_
  rw [hidx hitem, hidx hother]
  omega

/-- The first record with the best match, with its position. -/
def firstBest (seen : SlugRecord → SlugMatch) (items : List SlugRecord) :
    Option (SlugRecord × Nat) :=
  (items.zipIdx.argmax fun item => (seen item.1).rank).filter fun item => seen item.1 ≠ .noMatch

theorem mem_firstBest {seen : SlugRecord → SlugMatch} {item : SlugRecord × Nat} :
    item ∈ firstBest seen items ↔ (item ∈ items.zipIdx ∧
      (∀ other ∈ items.zipIdx, (seen other.1).rank ≤ (seen item.1).rank) ∧
      ∀ other ∈ items.zipIdx, other.2 < item.2 → (seen other.1).rank < (seen item.1).rank) ∧
      seen item.1 ≠ .noMatch := by
  have hposition : items.zipIdx.map Prod.snd = range items.zipIdx.length := by
    rw [zipIdx_map_snd, length_zipIdx, range_eq_range']
  rw [firstBest, Option.mem_def, Option.filter_eq_some_iff, ← Option.mem_def,
    mem_argmax_iff_position hposition, decide_eq_true_iff]

theorem eq_noMatch_of_firstBest {seen : SlugRecord → SlugMatch} {item : SlugRecord × Nat}
    (h : firstBest seen items = none) (hmem : item ∈ items.zipIdx) : seen item.1 = .noMatch := by
  unfold firstBest at h
  cases hbest : items.zipIdx.argmax fun item => (seen item.1).rank with
  | none =>
    rw [argmax_eq_none.mp hbest] at hmem
    cases hmem
  | some best =>
    have hnone : seen best.1 = .noMatch := by simpa [hbest, Option.filter] using h
    have hle := le_of_mem_argmax hmem hbest
    rw [hnone] at hle
    exact eq_noMatch_of_rank (Nat.lt_of_le_of_lt hle (by decide))

/-- The server finds the same record, unless it overlooks it and does not come to it by a
previous slug. -/
theorem server_eq_iff (href : trimSpace u ref ≠ []) :
    (firstBest (seenMatch u ref) items).map Prod.snd =
        (firstBest (matchSlugRef u ref) items).map Prod.snd ↔
      ∀ item ∈ firstBest (matchSlugRef u ref) items, Overlooked u ref item.1 →
        item.1.previousSlugIDs.contains (trimSpace u ref) ∧
        ∀ other ∈ items.zipIdx,
          (matchSlugRef u ref other.1 = .suffix → Overlooked u ref other.1) ∧
          (other.2 < item.2 → matchSlugRef u ref other.1 = .noMatch) := by
  have hle (r : SlugRecord) := @seenMatch_le u ref r href
  constructor
  · intro heq item hitem hover
    have hserver : item ∈ firstBest (seenMatch u ref) items := by
      rw [hitem, Option.map_some] at heq
      obtain ⟨found, hfound, hindex⟩ := Option.map_eq_some_iff.mp heq
      have hget := mem_zipIdx_iff_getElem?.mp (mem_firstBest.mp hfound).1.1
      rw [hindex, mem_zipIdx_iff_getElem?.mp (mem_firstBest.mp hitem).1.1] at hget
      rw [show found = item from Prod.ext (Option.some.inj hget).symm hindex] at hfound
      exact hfound
    obtain ⟨⟨-, hbest, hfirst⟩, -⟩ := mem_firstBest.mp hitem
    obtain ⟨⟨-, hseen, hbefore⟩, hmatched⟩ := mem_firstBest.mp hserver
    have hitem := (seenMatch_cases href).resolve_left (fun h => h.1 hover)
    by_cases hprevious : item.1.previousSlugIDs.contains (trimSpace u ref)
    · rw [hitem.2, if_pos hprevious] at hseen hbefore
      refine ⟨hprevious, fun other hother => ⟨fun hsuffix => ?_, fun hlt => ?_⟩⟩
      · refine ((seenMatch_cases href).resolve_left fun h => ?_).1
        have := hseen other hother
        rw [h.2, hsuffix] at this
        exact absurd this (by decide)
      · rcases seenMatch_cases href with ⟨-, h⟩ | ⟨h, -⟩
        · have hnone := hbefore other hother hlt
          rw [h] at hnone
          exact eq_noMatch_of_rank hnone
        · have hrank := hfirst other hother hlt
          rw [h.1, hover.1] at hrank
          exact absurd hrank (by decide)
    · rw [hitem.2, if_neg hprevious] at hmatched
      exact absurd rfl hmatched
  · intro hcond
    cases hbest : firstBest (matchSlugRef u ref) items with
    | none =>
      rw [Option.map_none, Option.map_eq_none_iff, Option.eq_none_iff_forall_not_mem]
      intro found hfound
      obtain ⟨⟨hmem, -⟩, hseen⟩ := mem_firstBest.mp hfound
      have hrank := hle found.1
      rw [eq_noMatch_of_firstBest hbest hmem] at hrank
      exact hseen (eq_noMatch_of_rank (Nat.lt_of_le_of_lt hrank (by decide)))
    | some item =>
      refine congrArg (Option.map Prod.snd) (?_ : item ∈ firstBest (seenMatch u ref) items)
      obtain ⟨⟨hmem, hmax, hfirst⟩, hmatched⟩ := mem_firstBest.mp hbest
      rw [mem_firstBest]
      by_cases hover : Overlooked u ref item.1
      · obtain ⟨hprevious, hothers⟩ := hcond item hbest hover
        have hitem := ((seenMatch_cases href).resolve_left (fun h => h.1 hover)).2
        rw [if_pos hprevious] at hitem
        rw [hitem]
        refine ⟨⟨hmem, fun other hother => ?_, fun other hother hlt => ?_⟩, nofun⟩
        · rcases seenMatch_cases href with ⟨hseen, h⟩ | ⟨-, h⟩
          · have hrank := hmax other hother
            rw [h]
            rw [hover.1] at hrank
            cases hmatch : matchSlugRef u ref other.1 with
            | noMatch | previous => decide
            | suffix => exact absurd ((hothers other hother).1 hmatch) hseen
            | exact =>
              rw [hmatch] at hrank
              exact absurd hrank (by decide)
          · rw [h]
            split <;> decide
        · have hrank := hle other.1
          rw [(hothers other hother).2 hlt] at hrank
          exact Nat.lt_of_le_of_lt hrank (by decide)
      · have hitem := ((seenMatch_cases href).resolve_right (fun h => hover h.1)).2
        rw [hitem]
        exact ⟨⟨hmem, fun other hother => (hle _).trans (hmax other hother),
          fun other hother hlt => (hle _).trans_lt (hfirst other hother hlt)⟩, hmatched⟩

/-- **The web finds the first record that a link names best, and the server does** unless it
overlooks that record, and does not come to it by a previous slug. -/
theorem findBySlugRef_eq (items : List SlugRecord) (ref : Text) :
    let best := firstBest (matchSlugRef u ref) items
    Web.findBySlugRef u Prod.fst items.zipIdx ref = best ∧
      (indexBySlugRef u items ref = best.map Prod.snd ↔
        ∀ item ∈ best, Overlooked u ref item.1 →
          item.1.previousSlugIDs.contains (trimSpace u ref) ∧
          ∀ other ∈ items.zipIdx,
            (matchSlugRef u ref other.1 = .suffix → Overlooked u ref other.1) ∧
            (other.2 < item.2 → matchSlugRef u ref other.1 = .noMatch)) := by
  intro best
  have hrank (m : SlugMatch) : m.rank ≤ 3 ∧ (0 < m.rank ↔ m ≠ .noMatch) := by
    cases m <;> decide
  have hfind (seen : SlugRecord → SlugMatch) :
      Web.findLoop (fun item => (seen item.1).rank) none 0 items.zipIdx =
        firstBest seen items := by
    rw [findLoop_eq fun item => (hrank _).1]
    simp [hrank, firstBest]
  have hblank (href : trimSpace u ref = []) : best = none := by
    simp [best, firstBest, href, matchSlugRef]
  constructor
  · unfold Web.findBySlugRef
    by_cases href : ref = []
    · rw [if_pos href, hblank (by rw [href]; rfl)]
    · simp only [if_neg href, slugRefMatch_eq]
      exact hfind _
  · unfold indexBySlugRef
    by_cases href : trimSpace u ref = []
    · simp [hblank, href]
    · let server := firstBest (seenMatch u ref) items
      have hserver := @indexLoop_eq u ref none .noMatch items.zipIdx nofun
      have hindex : indexLoop u (trimSpace u ref) (slugSuffix u (trimSpace u ref)) none .noMatch
          items.zipIdx = server.map Prod.snd := hserver.trans (congrArg _ (hfind _))
      simp only [if_neg href, hindex]
      exact server_eq_iff href

/-- The suffix of the slug `A-0123456789AB` is found by the match and by the web, and
overlooked by the server. -/
theorem capital_suffix_overlooked :
    let item : SlugRecord := ⟨['1'], "A-0123456789AB".toList, []⟩
    matchSlugRef ascii "0123456789ab".toList item = .suffix ∧
      Web.findBySlugRef ascii id [item] "0123456789ab".toList = some item ∧
      indexBySlugRef ascii [item] "0123456789ab".toList = none := by
  decide

end Records

end Flow.Ports.ResourceSlug
