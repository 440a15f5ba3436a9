import Mathlib.Data.List.AList

/-!
# Fallible loops over keys

Two loops that stop at the first key that fails.

* `updateKeys` changes a finite map key by key: each key keeps its value,
  loses it, or gets a new one.  The change of a key does not look at the map,
  so the map the loop leaves is read off one key at a time
  (`lookup_updateKeys_of_mem`, `lookup_updateKeys_of_not_mem`), whatever the
  order of the keys and however often one is visited.
* `collect` builds a list: each element contributes at most one item.  It
  succeeds exactly when every element does (`collect_eq_some_iff`).

`tabulate` names the items of such a list by the keys they came from, so that
a list can be read off one key at a time as well.
-/

namespace Flow.Verified.Keyed

open List Option

/-! ## Changing a map key by key -/

/-- What a loop does to one key of a map. -/
inductive KeyChange (ν : Type) where
  | keep
  | delete
  | set (value : ν)
deriving Repr

variable {κ ν : Type} [DecidableEq κ]

def KeyChange.value : KeyChange ν → Option ν → Option ν
  | .keep, old => old
  | .delete, _ => none
  | .set value, _ => some value

def KeyChange.apply (key : κ) (m : AList fun _ : κ => ν) :
    KeyChange ν → AList fun _ : κ => ν
  | .keep => m
  | .delete => m.erase key
  | .set value => m.insert key value

theorem KeyChange.value_value (c : KeyChange ν) (old : Option ν) :
    c.value (c.value old) = c.value old := by
  cases c <;> rfl

theorem KeyChange.lookup_apply_self (c : KeyChange ν) (key : κ)
    (m : AList fun _ : κ => ν) : (c.apply key m).lookup key = c.value (m.lookup key) := by
  cases c with
  | keep => rfl
  | delete => exact AList.lookup_erase key m
  | set value => exact AList.lookup_insert m

variable {key : κ}

theorem KeyChange.lookup_apply_ne (c : KeyChange ν) {other : κ} (hne : other ≠ key)
    (m : AList fun _ : κ => ν) : (c.apply key m).lookup other = m.lookup other := by
  cases c with
  | keep => rfl
  | delete => exact AList.lookup_erase_ne hne
  | set value => exact AList.lookup_insert_ne hne

/-- Change a map key by key; a key whose change fails stops the loop. -/
def updateKeys (change : κ → Option (KeyChange ν)) :
    List κ → (AList fun _ : κ => ν) → Option (AList fun _ : κ => ν)
  | [], m => some m
  | key :: keys, m =>
    match change key with
    | some c => updateKeys change keys (c.apply key m)
    | none => none

variable {change : κ → Option (KeyChange ν)} {keys : List κ}

theorem updateKeys_congr {change' : κ → Option (KeyChange ν)}
    (h : ∀ key ∈ keys, change key = change' key) :
    ∀ m, updateKeys change keys m = updateKeys change' keys m := by
  induction keys with
  | nil =>
    intro m
    rfl
  | cons key keys ih =>
    intro m
    simp only [updateKeys]
    rw [h key mem_cons_self]
    cases change' key with
    | none => rfl
    | some c => exact ih (fun k hk => h k (mem_cons_of_mem _ hk)) _

theorem updateKeys_isSome : ∀ m, (updateKeys change keys m).isSome ↔
      ∀ key ∈ keys, (change key).isSome := by
  induction keys with
  | nil => simp [updateKeys]
  | cons key keys ih =>
    simp only [updateKeys, forall_mem_cons]
    cases change key with
    | none => simp
    | some c => simp [ih]

theorem lookup_updateKeys_of_not_mem
    {m m' : AList fun _ : κ => ν} (h : updateKeys change keys m = some m')
    (hkey : key ∉ keys) : m'.lookup key = m.lookup key := by
  induction keys generalizing m with
  | nil =>
    cases h
    rfl
  | cons first keys ih =>
    rw [mem_cons, not_or] at hkey
    simp only [updateKeys] at h
    cases hfirst : change first with
    | none => simp [hfirst] at h
    | some c =>
      simp only [hfirst] at h
      rw [ih h hkey.2, c.lookup_apply_ne hkey.1]

theorem lookup_updateKeys_of_mem
    {m m' : AList fun _ : κ => ν} (h : updateKeys change keys m = some m')
    (hkey : key ∈ keys) {c : KeyChange ν} (hc : change key = some c) :
    m'.lookup key = c.value (m.lookup key) := by
  induction keys generalizing m with
  | nil => cases hkey
  | cons first keys ih =>
    simp only [updateKeys] at h
    cases hfirst : change first with
    | none => simp [hfirst] at h
    | some d =>
      simp only [hfirst] at h
      by_cases heq : key = first
      · subst heq
        have hcd : c = d := some.inj (hc.symm.trans hfirst)
        subst hcd
        -- a later visit of the same key repeats the change
        by_cases hlater : key ∈ keys
        · rw [ih h hlater, c.lookup_apply_self, c.value_value]
        · rw [lookup_updateKeys_of_not_mem h hlater, c.lookup_apply_self]
      · have hlater : key ∈ keys := (mem_cons.1 hkey).resolve_left heq
        rw [ih h hlater, d.lookup_apply_ne heq]

variable {α β : Type}

/-- Build a list, each element contributing at most one item; an element that
fails stops the loop. -/
def collect (entry : α → Option (Option β)) : List α → Option (List β)
  | [] => some []
  | a :: as =>
    match entry a with
    | some item => (collect entry as).map fun items => item.toList ++ items
    | none => none

theorem collect_congr {entry entry' : α → Option (Option β)} {as : List α}
    (h : ∀ a ∈ as, entry a = entry' a) : collect entry as = collect entry' as := by
  induction as with
  | nil => rfl
  | cons a as ih =>
    simp only [collect]
    rw [h a mem_cons_self, ih fun b hb => h b (mem_cons_of_mem _ hb)]

/-- The loop succeeds exactly when every element does, and then holds their
items in order. -/
theorem collect_eq_some_iff {entry : α → Option (Option β)} {as : List α} :
    ∀ {items : List β}, collect entry as = some items ↔ (∀ a ∈ as, (entry a).isSome) ∧
        items = as.filterMap fun a => (entry a).join := by
  induction as with
  | nil =>
    simp only [collect, some.injEq, not_mem_nil, false_implies, implies_true, true_and]
    exact eq_comm
  | cons a as ih =>
    intro items
    simp only [collect, forall_mem_cons]
    cases hentry : entry a with
    | none => simp
    | some item =>
      simp only [map_eq_some_iff, ih, isSome_some, true_and]
      constructor
      · rintro ⟨rest, ⟨hall, rfl⟩, rfl⟩
        refine ⟨hall, ?_⟩
        cases item <;> simp [hentry]
      · rintro ⟨hall, rfl⟩
        refine ⟨_, ⟨hall, rfl⟩, ?_⟩
        cases item <;> simp [hentry]

/-- The entries of the keys at which a partial function is defined. -/
def tabulateEntries (keys : List κ) (f : κ → Option ν) : List (Sigma fun _ : κ => ν) :=
  keys.filterMap fun key => (f key).map (Sigma.mk key)

omit [DecidableEq κ] in
private theorem keys_tabulateEntries_subset (keys : List κ) (f : κ → Option ν) :
    ∀ key ∈ (tabulateEntries keys f).keys, key ∈ keys := by
  intro key hkey
  obtain ⟨⟨k, v⟩, hmem, rfl⟩ := mem_map.1 hkey
  obtain ⟨k', hk', heq⟩ := mem_filterMap.1 hmem
  obtain ⟨v', _, hsigma⟩ := map_eq_some_iff.1 heq
  cases hsigma
  exact hk'

omit [DecidableEq κ] in
private theorem nodupKeys_tabulateEntries (hnodup : keys.Nodup)
    (f : κ → Option ν) : (tabulateEntries keys f).NodupKeys := by
  induction keys with
  | nil => exact nodupKeys_nil
  | cons key keys ih =>
    rw [nodup_cons] at hnodup
    unfold tabulateEntries
    rw [filterMap_cons]
    cases f key with
    | none => exact ih hnodup.2
    | some value =>
      refine nodupKeys_cons.2 ⟨?_, ih hnodup.2⟩
      exact fun hmem => hnodup.1 (keys_tabulateEntries_subset keys f key hmem)

/-- The map that has at each of its keys what a partial function has there. -/
def tabulate (keys : List κ) (hnodup : keys.Nodup) (f : κ → Option ν) :
    AList fun _ : κ => ν :=
  ⟨tabulateEntries keys f, nodupKeys_tabulateEntries hnodup f⟩

theorem lookup_tabulate (hnodup : keys.Nodup) (f : κ → Option ν)
    (hkey : key ∈ keys) : (tabulate keys hnodup f).lookup key = f key := by
  cases hf : f key with
  | some value =>
    refine AList.mem_lookup_iff.2 (mem_filterMap.2 ⟨key, hkey, ?_⟩)
    rw [hf, map_some]
  | none =>
    refine AList.lookup_eq_none.2 fun hmem => ?_
    obtain ⟨⟨k, v⟩, hentry, rfl⟩ := mem_map.1 (AList.mem_keys.1 hmem)
    obtain ⟨k', _, heq⟩ := mem_filterMap.1 hentry
    obtain ⟨v', hv', hsigma⟩ := map_eq_some_iff.1 heq
    cases hsigma
    rw [hf] at hv'
    cases hv'

theorem lookup_tabulate_of_not_mem (hnodup : keys.Nodup) (f : κ → Option ν) (hkey : key ∉ keys) :
    (tabulate keys hnodup f).lookup key = none :=
  AList.lookup_eq_none.2 fun hmem =>
    hkey (keys_tabulateEntries_subset keys f key (AList.mem_keys.1 hmem))

omit [DecidableEq κ] in
theorem values_tabulate (keys : List κ) (hnodup : keys.Nodup) (f : κ → Option ν) :
    (tabulate keys hnodup f).entries.map Sigma.snd = keys.filterMap f := by
  show (tabulateEntries keys f).map Sigma.snd = keys.filterMap f
  rw [tabulateEntries, map_filterMap]
  congr 1
  funext key
  cases f key <;> rfl

end Flow.Verified.Keyed
