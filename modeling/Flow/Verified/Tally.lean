import Mathlib.Data.List.Count
import Mathlib.Data.List.Nodup
import Mathlib.Algebra.BigOperators.Group.List.Basic
import Mathlib.Algebra.Order.Ring.Int

/-!
# Totals kept by key

A counter table holds one total for each key.  A writer adds a delta to the
total of a key, and a key without an entry starts at zero; the deltas of one
transaction are collected in a table of the same form and added to the stored
one when it commits.

`total` reads a key, `bump` adds to one and `merge` adds one table to another.
A table whose totals count a list of rows answers every question about the keys of
the rows (`sum_filter_eq_countP`).
-/

namespace Flow.Verified.Tally

open List Option

variable {κ ρ : Type} [DecidableEq κ]

def total : List (κ × Int) → κ → Int
  | [], _ => 0
  | entry :: rest, k => (if entry.1 = k then entry.2 else 0) + total rest k

def bump : List (κ × Int) → κ → Int → List (κ × Int)
  | [], k, delta => [(k, delta)]
  | entry :: rest, k, delta =>
    if entry.1 = k then (entry.1, entry.2 + delta) :: rest else entry :: bump rest k delta

/-- Adds the nonzero totals of one table to another. -/
def merge (table deltas : List (κ × Int)) : List (κ × Int) :=
  (deltas.filter fun entry => entry.2 ≠ 0).foldl (fun t entry => bump t entry.1 entry.2) table

variable {table deltas : List (κ × Int)} {k j : κ} {delta : Int}

theorem total_bump : total (bump table k delta) j = total table j + if k = j then delta else 0 := by
  induction table with
  | nil =>
    simp only [bump, total]
    omega
  | cons entry rest ih =>
    simp only [bump]
    by_cases hentry : entry.1 = k
    · rw [if_pos hentry]
      simp only [total, hentry]
      split <;> omega
    · rw [if_neg hentry]
      simp only [total]
      omega

theorem total_foldl_bump (table : List (κ × Int)) :
    total (deltas.foldl (fun t entry => bump t entry.1 entry.2) table) j =
      total table j + total deltas j := by
  induction deltas generalizing table with
  | nil => simp [total]
  | cons entry rest ih =>
    rw [foldl_cons, ih, total_bump]
    simp only [total]
    omega

theorem total_filter_ne_zero :
    total (deltas.filter fun entry => entry.2 ≠ 0) j = total deltas j := by
  induction deltas with
  | nil => rfl
  | cons entry rest ih =>
    by_cases hzero : entry.2 = 0
    · rw [filter_cons_of_neg (by simp [hzero]), ih]
      simp [total, hzero]
    · rw [filter_cons_of_pos (by simp [hzero])]
      simp only [total, ih]

@[simp] theorem total_merge : total (merge table deltas) j = total table j + total deltas j := by
  unfold merge
  rw [total_foldl_bump, total_filter_ne_zero]

theorem mem_keys_bump (h : j ∈ (bump table k delta).map Prod.fst) :
    j ∈ table.map Prod.fst ∨ j = k := by
  induction table with
  | nil => exact .inr (by simpa [bump] using h)
  | cons entry rest ih =>
    simp only [bump] at h
    split at h
    · exact .inl (by simpa using h)
    · rw [map_cons, mem_cons] at h
      rcases h with rfl | h
      · exact .inl (by simp)
      · exact (ih h).imp (mem_cons_of_mem _) id

theorem nodup_bump (h : (table.map Prod.fst).Nodup) :
    ((bump table k delta).map Prod.fst).Nodup := by
  induction table with
  | nil => simp [bump]
  | cons entry rest ih =>
    rw [map_cons, nodup_cons] at h
    simp only [bump]
    split
    · rw [map_cons, nodup_cons]
      exact h
    · rename_i hne
      rw [map_cons, nodup_cons]
      refine ⟨fun hmem => ?_, ih h.2⟩
      rcases mem_keys_bump hmem with hmem | heq
      · exact h.1 hmem
      · exact hne heq

theorem nodup_merge (h : (table.map Prod.fst).Nodup) :
    ((merge table deltas).map Prod.fst).Nodup := by
  unfold merge
  generalize deltas.filter (fun entry => entry.2 ≠ 0) = entries
  induction entries generalizing table with
  | nil => exact h
  | cons entry rest ih => exact ih (nodup_bump h)

theorem total_of_not_mem (h : k ∉ table.map Prod.fst) : total table k = 0 := by
  induction table with
  | nil => rfl
  | cons entry rest ih =>
    rw [map_cons, mem_cons, not_or] at h
    simp only [total, ih h.2, if_neg (Ne.symm h.1)]
    rfl

theorem total_of_mem (hnodup : (table.map Prod.fst).Nodup) {entry : κ × Int}
    (h : entry ∈ table) : total table entry.1 = entry.2 := by
  induction table with
  | nil => cases h
  | cons head rest ih =>
    rw [map_cons, nodup_cons] at hnodup
    rcases mem_cons.1 h with rfl | h
    · simp only [total, if_pos, total_of_not_mem hnodup.1]
      omega
    · have hne : head.1 ≠ entry.1 := fun heq => hnodup.1 (heq ▸ mem_map_of_mem h)
      simp only [total, if_neg hne, ih hnodup.2 h]
      omega

theorem countP_eq_sum {α : Type} (p : α → Bool) (l : List α) :
    (l.countP p : Int) = (l.map fun x => if p x then (1 : Int) else 0).sum := by
  induction l with
  | nil => rfl
  | cons x rest ih =>
    rw [map_cons, sum_cons, ← ih, countP_cons]
    cases p x <;> simp [Int.add_comm]

theorem sum_map_sub {α : Type} (f g : α → Int) (l : List α) :
    (l.map fun x => f x - g x).sum = (l.map f).sum - (l.map g).sum := by
  induction l with
  | nil => rfl
  | cons x rest ih =>
    simp only [map_cons, sum_cons]
    omega

theorem sum_filter_eq_zero {α : Type} (f : α → Int) {p : α → Bool} {l : List α}
    (h : ∀ x ∈ l, p x = false → f x = 0) : ((l.filter p).map f).sum = (l.map f).sum := by
  induction l with
  | nil => rfl
  | cons x rest ih =>
    have hrest := ih fun y hy => h y (mem_cons_of_mem x hy)
    cases hx : p x with
    | false => simp [hx, hrest, h x mem_cons_self hx]
    | true => simp [hx, hrest]

/-! ## Tables that count rows -/

theorem sum_countP_key {ρ : Type} {rows : List ρ} {key : ρ → κ} {ks : List κ} (hks : ks.Nodup) :
    (ks.map fun k => (rows.countP fun row => key row = k : Int)).sum =
      rows.countP fun row => key row ∈ ks := by
  induction ks with
  | nil => simp
  | cons k ks ih =>
    rw [nodup_cons] at hks
    rw [map_cons, sum_cons, ih hks.2, countP_eq_sum, countP_eq_sum, countP_eq_sum,
      ← sum_map_add]
    congr 2
    funext row
    by_cases hrow : key row = k
    · simp [hrow, hks.1]
    · simp [hrow]

/-- A table whose totals count the rows by key sums the rows whose keys have a
property, even when only the positive totals are read. -/
theorem sum_filter_eq_countP {ρ : Type} {rows : List ρ} {key : ρ → κ} {p : κ → Bool}
    (hnodup : (table.map Prod.fst).Nodup)
    (htotal : ∀ k, p k → total table k = (rows.countP fun row => key row = k : Int)) :
    ((table.filter fun entry => p entry.1 && decide (0 < entry.2)).map Prod.snd).sum =
      rows.countP fun row => p (key row) := by
  have hkeys : ((table.filter fun entry => p entry.1).map Prod.fst).Nodup :=
    hnodup.sublist ((List.filter_sublist (l := table)).map Prod.fst)
  have hvalue : ∀ entry ∈ table.filter fun entry => p entry.1,
      entry.2 = (rows.countP fun row => key row = entry.1 : Int) := by
    intro entry hentry
    obtain ⟨hmem, hp⟩ := List.mem_filter.1 hentry
    rw [← htotal entry.1 hp, total_of_mem hnodup hmem]
  have hpositive :
      ((table.filter fun entry => p entry.1 && decide (0 < entry.2)).map Prod.snd).sum =
      ((table.filter fun entry => p entry.1).map Prod.snd).sum := by
    rw [show (fun entry : κ × Int => p entry.1 && decide (0 < entry.2)) =
      fun entry => decide (0 < entry.2) && p entry.1 from funext fun _ => Bool.and_comm _ _,
      ← List.filter_filter]
    apply sum_filter_eq_zero
    intro entry hentry hzero
    have hle : entry.2 ≤ 0 := by simpa using hzero
    have hvalue := hvalue entry hentry
    omega
  calc ((table.filter fun entry => p entry.1 && decide (0 < entry.2)).map Prod.snd).sum
      = ((table.filter fun entry => p entry.1).map fun entry =>
          (rows.countP fun row => key row = entry.1 : Int)).sum := by
        rw [hpositive, List.map_congr_left hvalue]
    _ = rows.countP fun row => key row ∈ (table.filter fun entry => p entry.1).map Prod.fst := by
        rw [← sum_countP_key hkeys, List.map_map]
        rfl
    _ = rows.countP fun row => p (key row) := by
        congr 1
        apply List.countP_congr
        intro row hrow
        simp only [decide_eq_true_eq, List.mem_map, List.mem_filter]
        constructor
        · rintro ⟨entry, ⟨-, hp⟩, heq⟩
          rwa [heq] at hp
        · intro hp
          -- the row itself is counted, so its key has an entry
          by_cases hmem : key row ∈ table.map Prod.fst
          · obtain ⟨entry, hentry, heq⟩ := List.mem_map.1 hmem
            exact ⟨entry, ⟨hentry, heq ▸ hp⟩, heq⟩
          · have hzero := htotal (key row) hp
            rw [total_of_not_mem hmem] at hzero
            have hpos : 0 < rows.countP fun other => decide (key other = key row) :=
              List.countP_pos_iff.2 ⟨row, hrow, decide_eq_true rfl⟩
            omega

end Flow.Verified.Tally
