import Mathlib.Data.List.Dedup
import Mathlib.Data.List.Sort
import Flow.Verified.Tally

/-!
# Ordered groups

`SELECT key, n … GROUP BY key HAVING n > 0 ORDER BY key`: the keys that occur,
each once and in order, with their positive counts.  Such a list is determined by
the counts alone (`groups_congr`), so that two ways to count are compared key by
key and not list by list.
-/

namespace Flow.Verified.Grouping

open List Option

variable {κ : Type} [LinearOrder κ]

def distinct (keys : List κ) : List κ := keys.dedup.insertionSort (· ≤ ·)

def groups (keys : List κ) (count : κ → Int) : List (κ × Int) :=
  ((distinct keys).filter fun k => 0 < count k).map fun k => (k, count k)

theorem groups_eq_filterMap (keys : List κ) (count : κ → Int) : groups keys count =
      (distinct keys).filterMap fun k => if 0 < count k then some (k, count k) else none := by
  unfold groups
  rw [← filterMap_eq_map, filterMap_filter]
  simp

variable {keys keys' : List κ} {count count' : κ → Int} {k : κ}

@[simp] theorem mem_distinct : k ∈ distinct keys ↔ k ∈ keys := by
  unfold distinct
  rw [mem_insertionSort, mem_dedup]

theorem nodup_distinct (keys : List κ) : (distinct keys).Nodup :=
  (perm_insertionSort (· ≤ ·) keys.dedup).nodup_iff.2 keys.nodup_dedup

theorem pairwise_distinct (keys : List κ) : (distinct keys).Pairwise (· ≤ ·) :=
  pairwise_insertionSort (· ≤ ·) keys.dedup

theorem mem_groups {group : κ × Int} :
    group ∈ groups keys count ↔ group.1 ∈ keys ∧ 0 < count group.1 ∧ group.2 = count group.1 := by
  unfold groups
  rw [List.mem_map]
  constructor
  · rintro ⟨k, hk, rfl⟩
    obtain ⟨hmem, hpos⟩ := List.mem_filter.1 hk
    exact ⟨mem_distinct.1 hmem, of_decide_eq_true hpos, rfl⟩
  · rintro ⟨hmem, hpos, hcount⟩
    exact ⟨group.1, List.mem_filter.2 ⟨mem_distinct.2 hmem, decide_eq_true hpos⟩,
      Prod.ext rfl hcount.symm⟩

/-- Groups are determined by the counts: two lists of keys that have the counted
ones give the same groups. -/
theorem groups_congr (hcount : ∀ k, count k = count' k)
    (hkeys : ∀ k, 0 < count k → (k ∈ keys ↔ k ∈ keys')) :
    groups keys count = groups keys' count' := by
  have hfun : count = count' := funext hcount
  subst hfun
  unfold groups
  congr 1
  have hperm : ((distinct keys).filter fun k => decide (0 < count k)).Perm
      ((distinct keys').filter fun k => decide (0 < count k)) := by
    rw [perm_ext_iff_of_nodup ((nodup_distinct keys).filter _)
      ((nodup_distinct keys').filter _)]
    intro k
    simp only [mem_filter, mem_distinct, decide_eq_true_eq]
    exact and_congr_left (hkeys k)
  exact hperm.eq_of_pairwise (fun a b _ _ hab hba => le_antisymm hab hba)
    ((pairwise_distinct keys).filter _) ((pairwise_distinct keys').filter _)

/-- Two lists of groups of all counted keys are equal exactly when the counts
are. -/
theorem groups_eq_iff (hkeys : ∀ k, 0 < count k → k ∈ keys) (hkeys' : ∀ k, 0 < count' k → k ∈ keys')
    (hcount : ∀ k, 0 ≤ count k) (hcount' : ∀ k, 0 ≤ count' k) :
    groups keys count = groups keys' count' ↔ ∀ k, count k = count' k := by
  constructor
  · intro h k
    by_cases hpos : 0 < count k
    · have hmem : (k, count k) ∈ groups keys' count' := by
        rw [← h]
        exact mem_groups.2 ⟨hkeys k hpos, hpos, rfl⟩
      exact (mem_groups.1 hmem).2.2
    · by_cases hpos' : 0 < count' k
      · have hmem : (k, count' k) ∈ groups keys count := by
          rw [h]
          exact mem_groups.2 ⟨hkeys' k hpos', hpos', rfl⟩
        exact ((mem_groups.1 hmem).2.2).symm
      · have hzero := hcount k
        have hzero' := hcount' k
        omega
  · intro h
    apply groups_congr h
    intro k hpos
    exact ⟨fun _ => hkeys' k (h k ▸ hpos), fun _ => hkeys k hpos⟩

theorem total_groups [DecidableEq κ] (hkeys : ∀ k, 0 < count k → k ∈ keys)
    (hcount : ∀ k, 0 ≤ count k) (k : κ) :
    Tally.total (groups keys count) k = count k := by
  have hnodup : ((groups keys count).map Prod.fst).Nodup := by
    simp only [groups, List.map_map, Function.comp_def, List.map_id']
    exact (nodup_distinct keys).filter _
  by_cases hpos : 0 < count k
  · have hmem : (k, count k) ∈ groups keys count := mem_groups.2 ⟨hkeys k hpos, hpos, rfl⟩
    exact Tally.total_of_mem hnodup hmem
  · have hnot : k ∉ (groups keys count).map Prod.fst := by
      intro hmem
      obtain ⟨group, hgroup, rfl⟩ := List.mem_map.1 hmem
      exact hpos (mem_groups.1 hgroup).2.1
    rw [Tally.total_of_not_mem hnot]
    have hzero := hcount k
    omega

end Flow.Verified.Grouping
