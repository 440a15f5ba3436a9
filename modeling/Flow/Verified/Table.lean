import Mathlib.Algebra.BigOperators.Group.List.Basic
import Mathlib.Algebra.Order.Ring.Int
import Mathlib.Data.List.Basic
import Mathlib.Data.List.Count
import Mathlib.Data.List.Nodup

/-!
# Tables of versioned rows

A database table is a list of rows with distinct keys.  `lookup` reads the row
of a key and `replace` writes one; how many rows satisfy a predicate changes
by the row that was replaced (`countP_replace`), and reading a list of keys sums
the rows of those keys (`sum_map_lookup`).

A row that is written under optimistic concurrency carries a version.
`Follows version read now` says that `now` is what a row that was read as
`read` has become: its version has not gone down, and while the version is the
one that was read, so is the row.
-/

namespace Flow.Verified.Table

open List Option

variable {ρ κ : Type} [DecidableEq κ]

/-! ## Rows by key -/

def lookup (key : ρ → κ) (rows : List ρ) (k : κ) : Option ρ :=
  rows.find? fun row => key row = k

def replace (key : ρ → κ) (rows : List ρ) (new : ρ) : List ρ :=
  rows.map fun row => if key row = key new then new else row

variable {key : ρ → κ} {rows : List ρ} {row new : ρ} {k : κ}

theorem key_of_lookup (h : lookup key rows k = some row) : key row = k := by
  simpa using find?_some h

theorem mem_of_lookup (h : lookup key rows k = some row) : row ∈ rows :=
  mem_of_find?_eq_some h

@[simp] theorem map_key_replace : (replace key rows new).map key = rows.map key := by
  unfold replace
  rw [List.map_map]
  apply List.map_congr_left
  intro row _
  show key (if key row = key new then new else row) = key row
  split
  · rename_i h
    exact h.symm
  · rfl

theorem lookup_append_of_some (more : List ρ) (h : lookup key rows k = some row) :
    lookup key (rows ++ more) k = some row := by
  unfold lookup at h ⊢
  rw [find?_append, h]
  rfl

/-- In a table of distinct keys every row is the one its key reads. -/
theorem lookup_of_mem (hnodup : (rows.map key).Nodup) (h : row ∈ rows) :
    lookup key rows (key row) = some row := by
  induction rows with
  | nil => simp at h
  | cons head rest ih =>
    simp only [map_cons, nodup_cons] at hnodup
    unfold lookup at ih ⊢
    rcases mem_cons.1 h with rfl | h
    · simp
    · have hne : key head ≠ key row := by
        intro hkey
        exact hnodup.1 (hkey ▸ mem_map_of_mem h)
      simp only [find?_cons, hne]
      exact ih hnodup.2 h

theorem mem_keys_of_lookup (h : lookup key rows k = some row) : k ∈ rows.map key :=
  key_of_lookup h ▸ mem_map_of_mem (mem_of_lookup h)

theorem lookup_map {f : ρ → ρ} (hf : ∀ row, key (f row) = key row) :
    lookup key (rows.map f) k = (lookup key rows k).map f := by
  unfold lookup
  rw [find?_map]
  simp only [Function.comp_def, hf]

omit [DecidableEq κ] in
theorem map_key_map {f : ρ → ρ} (hf : ∀ row, key (f row) = key row) :
    (rows.map f).map key = rows.map key := by
  rw [List.map_map]
  exact List.map_congr_left fun row _ => hf row

theorem lookup_append_singleton_ne (h : key new ≠ k) :
    lookup key (rows ++ [new]) k = lookup key rows k := by
  simp [lookup, h]

theorem lookup_append_singleton (h : key new ∉ rows.map key) :
    lookup key (rows ++ [new]) (key new) = some new := by
  have hnone : rows.find? (fun row => key row = key new) = none := by
    rw [find?_eq_none]
    intro row hrow hkey
    exact h (of_decide_eq_true hkey ▸ mem_map_of_mem hrow)
  simp [lookup, hnone]

/-- A written row is read back; the other rows stay. -/
theorem lookup_replace (h : lookup key rows k = some row) :
    lookup key (replace key rows new) k = some (if k = key new then new else row) := by
  induction rows with
  | nil => simp [lookup] at h
  | cons head rest ih =>
    simp only [replace, map_cons]
    unfold lookup at h ⊢ ih
    by_cases hhead : key head = k
    · simp only [find?_cons, hhead, decide_true, some.injEq] at h
      subst h
      by_cases hnew : k = key new
      · simp [hhead, hnew]
      · simp [hhead, hnew]
    · simp only [find?_cons, hhead] at h
      have hskip : key (if key head = key new then new else head) ≠ k := by
        split
        · rename_i hsame
          rwa [← hsame]
        · exact hhead
      simp only [find?_cons, hskip]
      exact ih h

theorem replace_of_forall_ne (h : ∀ row ∈ rows, key row ≠ key new) :
    replace key rows new = rows := by
  conv_rhs => rw [← map_id rows]
  apply map_congr_left
  intro row hrow
  exact if_neg (h row hrow)

/-- In a table of distinct keys a row is replaced in its place. -/
theorem replace_of_mem (hnodup : (rows.map key).Nodup) (h : row ∈ rows) (hkey : key new = key row) :
    ∃ front back, rows = front ++ row :: back ∧
      replace key rows new = front ++ new :: back := by
  obtain ⟨front, back, rfl⟩ := append_of_mem h
  refine ⟨front, back, rfl, ?_⟩
  rw [map_append, map_cons, nodup_middle, nodup_cons, mem_append,
    not_or] at hnodup
  have hfront : replace key front new = front :=
    replace_of_forall_ne fun other hother heq =>
      hnodup.1.1 (hkey ▸ heq ▸ mem_map_of_mem hother)
  have hback : replace key back new = back :=
    replace_of_forall_ne fun other hother heq =>
      hnodup.1.2 (hkey ▸ heq ▸ mem_map_of_mem hother)
  have hsplit : replace key (front ++ row :: back) new =
      replace key front new ++ (if key row = key new then new else row) ::
        replace key back new := by
    simp [replace]
  rw [hsplit, hfront, hback, if_pos hkey.symm]

/-- Replacing a row changes a count by what the two rows contribute. -/
theorem countP_replace (p : ρ → Bool) (hnodup : (rows.map key).Nodup)
    (h : lookup key rows (key new) = some row) :
    (replace key rows new).countP p + (if p row then 1 else 0) =
      rows.countP p + (if p new then 1 else 0) := by
  obtain ⟨front, back, hrows, hreplace⟩ :=
    replace_of_mem hnodup (mem_of_lookup h) (key_of_lookup h).symm
  rw [hreplace, hrows, countP_append, countP_append, countP_cons,
    countP_cons]
  omega

theorem ne_of_lookup_eq_none (h : lookup key rows k = none) : ∀ row ∈ rows, key row ≠ k := by
  intro row hrow hkey
  exact absurd (find?_eq_none.1 h row hrow) (by simp [hkey])

theorem filter_key_eq (hnodup : (rows.map key).Nodup) :
    rows.filter (fun row => key row = k) = (lookup key rows k).toList := by
  induction rows with
  | nil => rfl
  | cons head rest ih =>
    rw [map_cons, nodup_cons] at hnodup
    by_cases hhead : key head = k
    · have hrest : rest.filter (fun row => key row = k) = [] := by
        rw [filter_eq_nil_iff]
        intro row hrow hkey
        exact hnodup.1 (hhead ▸ of_decide_eq_true hkey ▸ mem_map_of_mem hrow)
      simp [lookup, hhead, hrest]
    · have hskip := ih hnodup.2
      unfold lookup at hskip ⊢
      simp only [filter_cons, find?_cons, hhead]
      exact hskip

theorem sum_filter_or (f : ρ → Int) {p q : ρ → Bool} (h : ∀ row, p row → q row = false) :
    ((rows.filter fun row => p row || q row).map f).sum =
      ((rows.filter p).map f).sum + ((rows.filter q).map f).sum := by
  induction rows with
  | nil => rfl
  | cons head rest ih =>
    cases hp : p head with
    | true => simp [hp, h head hp]; omega
    | false =>
      cases hq : q head with
      | true => simp [hp, hq]; omega
      | false => simp [hp, hq, ih]

/-- Reading a table key by key sums the rows of those keys. -/
theorem sum_map_lookup (f : ρ → Int) (hrows : (rows.map key).Nodup) {ks : List κ} (hks : ks.Nodup) :
    (ks.map fun k => ((lookup key rows k).map f).getD 0).sum =
      ((rows.filter fun row => key row ∈ ks).map f).sum := by
  induction ks with
  | nil => simp
  | cons k ks ih =>
    rw [nodup_cons] at hks
    have hsplit : (rows.filter fun row => decide (key row ∈ k :: ks)) =
        rows.filter fun row => decide (key row = k) || decide (key row ∈ ks) := by
      congr 1
      simp
    have hdisjoint : ∀ row, decide (key row = k) = true → decide (key row ∈ ks) = false := by
      intro row hrow
      rw [of_decide_eq_true hrow]
      simpa using hks.1
    rw [map_cons, sum_cons, ih hks.2, hsplit, sum_filter_or f hdisjoint,
      filter_key_eq hrows]
    cases lookup key rows k <;> simp
/-! ## Rows that their keys tell apart

Weaker than distinct keys, and kept by any change that keeps the keys. -/

def Distinct (key : ρ → κ) (rows : List ρ) : Prop :=
  ∀ row ∈ rows, ∀ row' ∈ rows, key row = key row' → row = row'

theorem mem_push (h : row ∈ rows ++ [new]) : row ∈ rows ∨ row = new :=
  (mem_append.1 h).imp id mem_singleton.1

omit [DecidableEq κ] in
theorem Distinct.map {f : ρ → ρ} (h : Distinct key rows) (hf : ∀ row, key (f row) = key row) :
    Distinct key (rows.map f) := by
  unfold Distinct
  simp only [List.forall_mem_map, hf]
  intro row hrow row' hrow' hkey
  rw [h row hrow row' hrow' hkey]

omit [DecidableEq κ] in
theorem Distinct.push (h : Distinct key rows) (hfresh : ∀ row ∈ rows, key row ≠ key new) :
    Distinct key (rows ++ [new]) := by
  intro row hrow row' hrow' hkey
  rcases mem_push hrow with hmem | rfl <;> rcases mem_push hrow' with hmem' | rfl
  · exact h row hmem row' hmem' hkey
  · exact absurd hkey (hfresh row hmem)
  · exact absurd hkey.symm (hfresh row' hmem')
  · rfl

/-- `now` is what a row that was read as `read` has become. -/
structure Follows (version : ρ → Nat) (read now : ρ) : Prop where
  le : version read ≤ version now
  eq_of_version : version read = version now → read = now

variable {version : ρ → Nat} {read now next : ρ}

theorem Follows.refl (version : ρ → Nat) (read : ρ) : Follows version read read :=
  ⟨Nat.le_refl _, fun _ => rfl⟩

theorem Follows.trans (h : Follows version read now) (h' : Follows version now next) :
    Follows version read next := by
  refine ⟨Nat.le_trans h.le h'.le, fun hversion => ?_⟩
  have hle := h.le
  have hle' := h'.le
  rw [h.eq_of_version (by omega)]
  exact h'.eq_of_version (by omega)

end Flow.Verified.Table
