import Mathlib.Data.List.Induction
import Mathlib.Data.List.Sort

/-!
# Keyset paging

A table whose rows have distinct keys is read in pages.  A request names the key
of the last row it has seen; it gets the first of the rows beyond that key, in
the order of the keys, and whether there are more.  The table may change between
two requests.

How many rows a page has is open: a page is any part of the rows ahead that
starts with the first of them, and it is not empty when there are more.
-/

namespace Flow.Verified.Keyset

open List Option

variable {α κ : Type} [LinearOrder κ]

/-! ## The rows ahead -/

/-- Whether a key comes after a position; without a position every key does. -/
def beyond : Option κ → κ → Bool
  | none, _ => true
  | some c, k => decide (c < k)

@[simp] theorem beyond_none (k : κ) : beyond none k := rfl

@[simp] theorem beyond_some (c k : κ) : beyond (some c) k = decide (c < k) := rfl

variable {k : κ}

theorem beyond_of_lt {cursor : Option κ} {c : κ} (hc : beyond cursor c) (hk : c < k) :
    beyond cursor k := by
  cases cursor with
  | none => rfl
  | some b =>
    simp only [beyond_some, decide_eq_true_eq] at hc ⊢
    exact lt_trans hc hk

def inOrder (key : α → κ) (rows : List α) : List α :=
  rows.insertionSort fun a b => key a ≤ key b

def ahead (key : α → κ) (cursor : Option κ) (rows : List α) : List α :=
  inOrder key (rows.filter fun row => beyond cursor (key row))

variable {key : α → κ} {cursor : Option κ} {rows items rest : List α}

theorem perm_inOrder (key : α → κ) (rows : List α) : (inOrder key rows).Perm rows :=
  perm_insertionSort _ rows

theorem ahead_none (key : α → κ) (rows : List α) : ahead key none rows = inOrder key rows := by
  simp [ahead]

variable {row : α}

theorem mem_ahead : row ∈ ahead key cursor rows ↔ row ∈ rows ∧ beyond cursor (key row) := by
  rw [ahead, (perm_inOrder key _).mem_iff, mem_filter]

theorem inOrder_pairwise_le (key : α → κ) (rows : List α) :
    (inOrder key rows).Pairwise fun a b => key a ≤ key b := by
  exact pairwise_insertionSort _ rows

theorem inOrder_pairwise (hkeys : (rows.map key).Nodup) :
    (inOrder key rows).Pairwise fun a b => key a < key b := by
  have hle := inOrder_pairwise_le key rows
  have hne : (inOrder key rows).Pairwise fun a b => key a ≠ key b := by
    have hnodup : ((inOrder key rows).map key).Nodup :=
      ((perm_inOrder key rows).map key).nodup_iff.2 hkeys
    exact pairwise_map.1 hnodup
  exact (hle.and hne).imp fun h => lt_of_le_of_ne h.1 h.2

variable {l : List α}

theorem eq_of_pairwise {l' : List α} (hperm : l.Perm l')
    (hl : l.Pairwise fun a b => key a < key b) (hl' : l'.Pairwise fun a b => key a < key b) :
    l = l' := by
  refine Perm.eq_of_pairwise ?_ hl hl' hperm
  intro a b _ _ hab hba
  exact absurd hab (lt_asymm hba)

theorem ahead_pairwise (cursor : Option κ) (hkeys : (rows.map key).Nodup) :
    (ahead key cursor rows).Pairwise fun a b => key a < key b :=
  inOrder_pairwise (hkeys.sublist (filter_sublist.map key))

theorem nodup_of_pairwise (h : l.Pairwise fun a b => key a < key b) : l.Nodup := by
  apply h.imp
  intro a b hlt heq
  exact lt_irrefl (key b) (heq ▸ hlt)

theorem eq_of_mem_iff {l' : List α} (hl : l.Pairwise fun a b => key a < key b)
    (hl' : l'.Pairwise fun a b => key a < key b) (hmem : ∀ a, a ∈ l ↔ a ∈ l') : l = l' :=
  eq_of_pairwise
    ((perm_ext_iff_of_nodup (nodup_of_pairwise hl) (nodup_of_pairwise hl')).2 hmem) hl hl'

structure IsPage (key : α → κ) (cursor : Option κ) (rows items : List α) (more : Bool) : Prop where
  starts : ∃ rest, ahead key cursor rows = items ++ rest ∧ (more = true ↔ rest ≠ [])
  progress : more = true → items ≠ []

/-- The rows ahead of the last row of a page are those that the page left. -/
theorem ahead_last (hkeys : (rows.map key).Nodup)
    (hahead : ahead key cursor rows = items ++ rest) (hlast : items.getLast? = some row) :
    ahead key (some (key row)) rows = rest := by
  have hpairwise := ahead_pairwise cursor hkeys
  rw [hahead, pairwise_append] at hpairwise
  obtain ⟨hitems, hrest, hcross⟩ := hpairwise
  have hrow : row ∈ items := mem_of_getLast? hlast
  -- no row of the page is beyond its last row, every row after it is
  have hbefore : ∀ a ∈ items, ¬ key row < key a := by
    intro a ha hlt
    obtain ⟨front, rfl⟩ := getLast?_eq_some_iff.1 hlast
    rcases mem_append.1 ha with hfront | hend
    · have := (pairwise_append.1 hitems).2.2 a hfront row (by simp)
      exact lt_asymm hlt this
    · rw [mem_singleton] at hend
      exact lt_irrefl _ (hend ▸ hlt)
  have hmem : ∀ a, a ∈ ahead key (some (key row)) rows ↔ a ∈ rest := by
    intro a
    have hsplit : a ∈ ahead key cursor rows ↔ a ∈ items ∨ a ∈ rest := by
      rw [hahead, mem_append]
    have hseen : row ∈ ahead key cursor rows := by rw [hahead]; simp [hrow]
    rw [mem_ahead] at hsplit hseen ⊢
    simp only [beyond_some, decide_eq_true_eq]
    constructor
    · rintro ⟨ha, hlt⟩
      rcases hsplit.1 ⟨ha, beyond_of_lt hseen.2 hlt⟩ with h | h
      · exact absurd hlt (hbefore a h)
      · exact h
    · intro ha
      exact ⟨(hsplit.2 (.inr ha)).1, hcross row hrow a ha⟩
  exact eq_of_mem_iff (ahead_pairwise _ hkeys) hrest hmem

theorem IsPage.ahead_eq {more : Bool} (hpage : IsPage key cursor rows items more)
    (hkeys : (rows.map key).Nodup) (hlast : items.getLast? = some row) :
    ahead key cursor rows = items ++ ahead key (some (key row)) rows := by
  obtain ⟨rest, hahead, -⟩ := hpage.starts
  rw [ahead_last hkeys hahead hlast]
  exact hahead

theorem IsPage.items_eq (hpage : IsPage key cursor rows items false) :
    ahead key cursor rows = items := by
  obtain ⟨rest, hahead, hmore⟩ := hpage.starts
  have hrest : rest = [] := by
    by_contra hne
    exact absurd (hmore.2 hne) (by decide)
  rw [hahead, hrest, append_nil]

/-! ## Walks -/

/-- A walk through a table: the table at each request, and the page it got. It ends with a page
after which there is no row. -/
inductive Walk (key : α → κ) : Option κ → List (List α) → List (List α) → Prop where
  | last {cursor : Option κ} {rows items : List α} :
      IsPage key cursor rows items false → Walk key cursor [rows] [items]
  | next {cursor : Option κ} {rows items : List α} {row : α} {tables pages : List (List α)} :
      IsPage key cursor rows items true → items.getLast? = some row →
      Walk key (some (key row)) tables pages → Walk key cursor (rows :: tables) (items :: pages)

variable {tables pages : List (List α)}

theorem Walk.mem (hwalk : Walk key cursor tables pages)
    (hrow : row ∈ pages.flatten) : ∃ table ∈ tables, row ∈ table := by
  induction hwalk with
  | last hpage =>
    rw [flatten_cons, flatten_nil, append_nil, ← hpage.items_eq] at hrow
    exact ⟨_, mem_singleton_self _, (mem_ahead.1 hrow).1⟩
  | @next cursor rows items row' tables pages hpage hlast _ ih =>
    rw [flatten_cons, mem_append] at hrow
    rcases hrow with hnow | hlater
    · obtain ⟨rest, hahead, -⟩ := hpage.starts
      have hmem : row ∈ ahead key cursor rows := by rw [hahead]; simp [hnow]
      exact ⟨rows, by simp, (mem_ahead.1 hmem).1⟩
    · obtain ⟨table, htable, hmem⟩ := ih hlater
      exact ⟨table, by simp [htable], hmem⟩

/-- **The pages of an unchanged table** are its rows in order. -/
theorem Walk.flatten_eq (hwalk : Walk key cursor tables pages)
    (hkeys : (rows.map key).Nodup) (htables : ∀ table ∈ tables, table = rows) :
    pages.flatten = ahead key cursor rows := by
  induction hwalk with
  | last hpage =>
    rw [htables _ (mem_singleton_self _)] at hpage
    simp [hpage.items_eq]
  | next hpage hlast _ ih =>
    rw [htables _ mem_cons_self] at hpage
    rw [flatten_cons, ih fun table h => htables table (by simp [h]),
      hpage.ahead_eq hkeys hlast]

theorem count_map_ahead (cursor : Option κ) (hkeys : (rows.map key).Nodup) (hk : k ∈ rows.map key) :
    ((ahead key cursor rows).map key).count k = if beyond cursor k then 1 else 0 := by
  have hnodup : ((ahead key cursor rows).map key).Nodup := by
    refine pairwise_map.2 ((ahead_pairwise cursor hkeys).imp ?_)
    intro a b hlt
    exact ne_of_lt hlt
  obtain ⟨row, hrow, rfl⟩ := mem_map.1 hk
  split
  · rename_i hbeyond
    exact count_eq_one_of_mem hnodup (mem_map.2 ⟨row, mem_ahead.2 ⟨hrow, hbeyond⟩, rfl⟩)
  · rename_i hbeyond
    apply count_eq_zero.2
    intro hmem
    obtain ⟨other, hother, heq⟩ := mem_map.1 hmem
    rw [mem_ahead, heq] at hother
    exact hbeyond hother.2

/-- **A key that stays in the table** is returned once, whatever else changes
between the requests. -/
theorem Walk.count_eq (hwalk : Walk key cursor tables pages)
    (htables : ∀ table ∈ tables, (table.map key).Nodup ∧ k ∈ table.map key) :
    (pages.flatten.map key).count k = if beyond cursor k then 1 else 0 := by
  induction hwalk with
  | last hpage =>
    obtain ⟨hkeys, hk⟩ := htables _ (mem_singleton_self _)
    rw [← count_map_ahead _ hkeys hk, hpage.items_eq]
    simp
  | @next cursor rows items row tables pages hpage hlast _ ih =>
    obtain ⟨hkeys, hk⟩ := htables rows (by simp)
    have hrest := ih fun table h => htables table (by simp [h])
    have hnow := count_map_ahead cursor hkeys hk
    have hlater := count_map_ahead (some (key row)) hkeys hk
    rw [hpage.ahead_eq hkeys hlast, map_append, count_append] at hnow
    rw [flatten_cons, map_append, count_append]
    omega

/-! ## Rows that share keys

A scan reads an unchanged table in pages of one size, until a page is not full.  A
page that ends between two rows with one key skips the second. -/

def scan (key : α → κ) (size : Nat) (rows : List α) : Nat → κ → List α
  | 0, _ => []
  | fuel + 1, last =>
    let page := (rows.filter fun row => last < key row).take size
    if page.length < size then page
    else page ++ scan key size rows fuel ((page.getLast?.map key).getD last)

def Aligned (key : α → κ) (size : Nat) (rows : List α) : Prop :=
  ∀ i a b, (i + 1) % size = 0 → rows[i]? = some a → rows[i + 1]? = some b → key a ≠ key b

variable {size : Nat}

theorem aligned_of_pairwise (h : rows.Pairwise fun a b => key a < key b) :
    Aligned key size rows := by
  intro i a b _ ha hb
  obtain ⟨hi, rfl⟩ := List.getElem?_eq_some_iff.mp ha
  obtain ⟨hi', rfl⟩ := List.getElem?_eq_some_iff.mp hb
  exact ne_of_lt (pairwise_iff_getElem.mp h i (i + 1) hi hi' (Nat.lt_succ_self i))

theorem filter_eq_drop (hsorted : rows.Pairwise fun a b => key a ≤ key b) {i : Nat}
    (hrow : rows[i]? = some row) (hnext : ∀ next, rows[i + 1]? = some next → key row ≠ key next) :
    rows.filter (fun other => key row < key other) = rows.drop (i + 1) := by
  obtain ⟨hi, rfl⟩ := List.getElem?_eq_some_iff.mp hrow
  have hle := List.pairwise_iff_getElem.mp hsorted
  have hearlier : (rows.take (i + 1)).filter (fun other => key rows[i] < key other) = [] := by
    refine filter_eq_nil_iff.mpr fun other hother => ?_
    obtain ⟨j, hj, rfl⟩ := mem_take_iff_getElem.mp hother
    rw [decide_eq_true_eq, not_lt]
    rcases Nat.lt_or_ge j i with hji | hji
    · exact hle j i _ hi hji
    · obtain rfl : j = i := by omega
      exact le_refl _
  have hlater : (rows.drop (i + 1)).filter (fun other => key rows[i] < key other) =
      rows.drop (i + 1) := by
    refine filter_eq_self.mpr fun other hother => ?_
    obtain ⟨j, hj, rfl⟩ := mem_drop_iff_getElem.mp hother
    have hi' : i + 1 < rows.length := by omega
    have hlt : key rows[i] < key rows[i + 1] :=
      lt_of_le_of_ne (hle i (i + 1) hi hi' (Nat.lt_succ_self i))
        (hnext _ (getElem?_eq_getElem hi'))
    rw [decide_eq_true_eq]
    rcases Nat.eq_zero_or_pos j with rfl | hpos
    · exact hlt
    · exact lt_of_lt_of_le hlt (hle (i + 1) (i + 1 + j) hi' _ (by omega))
  calc rows.filter (fun other => key rows[i] < key other)
      = (rows.take (i + 1) ++ rows.drop (i + 1)).filter
          (fun other => key rows[i] < key other) := by
        rw [take_append_drop]
    _ = rows.drop (i + 1) := by rw [filter_append, hearlier, hlater, nil_append]

/-- A scan that has read some whole pages reads the rest. -/
theorem scan_eq_drop (hsize : 0 < size) (hsorted : rows.Pairwise fun a b => key a ≤ key b)
    (haligned : Aligned key size rows) {fuel n : Nat} {last : κ}
    (hlast : rows.filter (fun row => last < key row) = rows.drop (n * size))
    (hfuel : rows.length < (n + fuel) * size) :
    scan key size rows fuel last = rows.drop (n * size) := by
  induction fuel generalizing n last with
  | zero =>
    rw [Nat.add_zero] at hfuel
    rw [scan, drop_eq_nil_of_le (Nat.le_of_lt hfuel)]
  | succ fuel ih =>
    rw [scan, hlast]
    split
    · rename_i hshort
      rw [length_take, length_drop] at hshort
      exact take_of_length_le (by rw [length_drop]; omega)
    · rename_i hfull
      rw [length_take, length_drop] at hfull
      have hnext : (n + 1) * size = n * size + size := Nat.succ_mul n size
      -- the last row of a full page
      have hi : n * size + (size - 1) < rows.length := by omega
      have hpage : ((rows.drop (n * size)).take size).getLast? =
          rows[n * size + (size - 1)]? := by
        rw [getLast?_eq_getElem?, length_take, length_drop,
          getElem?_take_of_lt (by omega), getElem?_drop]
        congr 1
        omega
      have hrow := getElem?_eq_getElem hi
      have hend : n * size + (size - 1) + 1 = (n + 1) * size := by omega
      rw [hpage, hrow, map_some, getD_some, ih (n := n + 1) ?_ ?_, hnext]
      · rw [← drop_drop, take_append_drop]
      · rw [filter_eq_drop hsorted hrow, hend]
        intro next hafter
        refine haligned _ _ _ ?_ hrow hafter
        rw [hend, Nat.mul_mod_left]
      · have : n + 1 + fuel = n + (fuel + 1) := by omega
        rwa [this]

/-- **A scan reads every row**, when it starts before all of them and no page ends
between two that share a key. -/
theorem scan_eq (hsize : 0 < size) {start : κ} (hsorted : rows.Pairwise fun a b => key a ≤ key b)
    (haligned : Aligned key size rows) (hstart : ∀ row ∈ rows, start < key row) :
    scan key size rows (rows.length + 1) start = rows := by
  have hall : rows.filter (fun row => start < key row) = rows.drop (0 * size) := by
    rw [Nat.zero_mul]
    exact filter_eq_self.mpr fun row hrow => decide_eq_true (hstart row hrow)
  have hfuel : rows.length < (0 + (rows.length + 1)) * size := by
    rw [Nat.zero_add]
    exact Nat.lt_of_lt_of_le (Nat.lt_succ_self _) (Nat.le_mul_of_pos_right _ hsize)
  rw [scan_eq_drop hsize hsorted haligned hall hfuel, Nat.zero_mul, drop_zero]

/-! ## Keys without a gap -/

theorem take_range' (start count limit : Nat) :
    (range' start count).take limit = range' start (min limit count) :=
  ext_getElem (by simp) (by simp)

/-- Rows whose keys are the numbers of an interval, in the order of their keys. -/
theorem map_inOrder_eq_range' {key : α → Nat} {rows : List α} {start count : Nat}
    (hkeys : (rows.map key).Nodup) (hmem : ∀ n, n ∈ rows.map key ↔ start ≤ n ∧ n < start + count) :
    (inOrder key rows).map key = range' start count := by
  have hsorted : ((inOrder key rows).map key).Pairwise fun a b => id a < id b :=
    pairwise_map.2 (inOrder_pairwise hkeys)
  refine eq_of_mem_iff hsorted (pairwise_lt_range' 1) fun n => ?_
  rw [((perm_inOrder key rows).map key).mem_iff, hmem, mem_range'_1]

section LastHit

variable {β : Type} {f : α → Option β}

/-- What a loop holds at its end that keeps every hit in place of the one before. -/
def lastHit (f : α → Option β) (rows : List α) : Option β :=
  rows.foldl (fun last row => (f row).or last) none

theorem lastHit_concat (row : α) : lastHit f (rows ++ [row]) = (f row).or (lastHit f rows) := by
  rw [lastHit, foldl_concat, lastHit]

theorem lastHit_eq_none_iff : lastHit f rows = none ↔ ∀ row ∈ rows, f row = none := by
  induction rows using reverseRecOn with
  | nil => simp [lastHit]
  | append_singleton rows last ih =>
    rw [lastHit_concat, or_eq_none_iff, ih, forall_mem_append,
      forall_mem_singleton, and_comm]

/-- In a table in order, the last hit is that of the row with the largest key. -/
theorem lastHit_eq_some_iff (hsorted : rows.Pairwise fun a b => key a < key b) {b : β} :
    lastHit f rows = some b ↔ ∃ row ∈ rows, f row = some b ∧
        ∀ other ∈ rows, (f other).isSome → key other ≤ key row := by
  induction rows using reverseRecOn with
  | nil => simp [lastHit]
  | append_singleton rows last ih =>
    obtain ⟨hrows, -, hlast⟩ := pairwise_append.mp hsorted
    have hlt : ∀ row ∈ rows, key row < key last := fun row hrow => hlast row hrow last (by simp)
    rw [lastHit_concat]
    cases hhit : f last with
    | some b' =>
      rw [some_or]
      constructor
      · intro heq
        refine ⟨last, by simp, hhit.trans heq, fun other hother _ => ?_⟩
        rcases mem_append.mp hother with hother | hother
        · exact (hlt other hother).le
        · rw [mem_singleton.mp hother]
      · rintro ⟨row, hrow, hb, hmax⟩
        have hle := hmax last (by simp) (by simp [hhit])
        rcases mem_append.mp hrow with hrow | hrow
        · exact absurd (hlt row hrow) (not_lt.mpr hle)
        · rw [← hb, mem_singleton.mp hrow, hhit]
    | none =>
      rw [none_or, ih hrows]
      constructor
      · rintro ⟨row, hrow, hb, hmax⟩
        refine ⟨row, mem_append_left _ hrow, hb, fun other hother hsome => ?_⟩
        rcases mem_append.mp hother with hother | hother
        · exact hmax other hother hsome
        · rw [mem_singleton.mp hother, hhit] at hsome
          exact absurd hsome (by simp)
      · rintro ⟨row, hrow, hb, hmax⟩
        rcases mem_append.mp hrow with hrow | hrow
        · exact ⟨row, hrow, hb, fun other hother => hmax other (mem_append_left _ hother)⟩
        · rw [mem_singleton.mp hrow, hhit] at hb
          cases hb

end LastHit

end Flow.Verified.Keyset
