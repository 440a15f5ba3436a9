import Flow.Ports.IssuePages
import Flow.Verified.Keyset

/-!
# Pages cover the result

A traversal follows the cursors of its pages, forwards or in reverse, while the stored
rows may change between requests.  When the cursor of every row of the result is
accepted and names the row's own place, the label index gives the rows of the query, and
the releases it asks for keep their issues, no request is refused, every row that matches
throughout with an unchanged sort value is returned once, and the pages of an unchanged
store are its matching rows in the requested order (`follow_covers`).

A cursor that is too long, or of other issues of a release, ends the traversal with an
error, and a filter driven by a label returns rows that do not match (`pages_fail`).
-/

namespace Flow.Ports.IssueQuery

open List Option Flow.Verified Function
open Keyset (IsPage Walk ahead)

/-! ## One page -/

theorem pageLimit_pos (limit : Int) : 0 < pageLimit limit := by
  unfold pageLimit
  split
  · omega
  · split <;> omega

section Fill

variable (limit : Nat) (summary : Bool) (bytes : Row → Nat)

/-- The rows of a page are the first of those scanned, up to the limit; it stopped exactly
when some are left. -/
theorem fillPage_starts (rows : List Selected) : ∀ count used, count ≤ limit →
    ∃ rest, rows = (fillPage limit summary bytes count used rows).1 ++ rest ∧
      ((fillPage limit summary bytes count used rows).2 ↔ rest ≠ []) ∧
      count + (fillPage limit summary bytes count used rows).1.length ≤ limit := by
  induction rows with
  | nil => exact fun _ _ hcount => ⟨[], rfl, by simp [fillPage], hcount⟩
  | cons row others ih =>
    intro count used hcount
    rw [fillPage]
    split
    · exact ⟨row :: others, rfl, by simp, hcount⟩
    · obtain ⟨rest, hrest, hmore, hlength⟩ := ih (count + 1) (used + bytes row.1) (by omega)
      refine ⟨rest, congrArg (row :: ·) hrest, hmore, ?_⟩
      simp only [length_cons]
      omega

theorem fillPage_ne_nil {rows : List Selected} (hlimit : 0 < limit) (hrows : rows ≠ []) :
    (fillPage limit summary bytes 0 0 rows).1 ≠ [] := by
  cases rows with
  | nil => exact absurd rfl hrows
  | cons row others =>
    rw [fillPage, if_neg (by omega)]
    simp

/-- Reading one row more than the limit shows whether there are more. -/
theorem fillPage_take (hlimit : 0 < limit) (rows : List Selected) :
    ∃ rest, rows = (fillPage limit summary bytes 0 0 (rows.take (limit + 1))).1 ++ rest ∧
      ((fillPage limit summary bytes 0 0 (rows.take (limit + 1))).2 ↔ rest ≠ []) ∧
      ((fillPage limit summary bytes 0 0 (rows.take (limit + 1))).2 →
        (fillPage limit summary bytes 0 0 (rows.take (limit + 1))).1 ≠ []) := by
  obtain ⟨left, hleft, hmore, hlength⟩ :=
    fillPage_starts limit summary bytes (rows.take (limit + 1)) 0 0 (Nat.zero_le _)
  refine ⟨left ++ rows.drop (limit + 1), ?_, ?_, ?_⟩
  · rw [← append_assoc, ← hleft, take_append_drop]
  · rw [hmore]
    constructor
    · intro hne heq
      exact hne (append_eq_nil_iff.1 heq).1
    · intro hne hnil
      rw [hnil] at hne
      have hlong : limit + 1 < rows.length := by
        by_contra hshort
        exact hne (drop_eq_nil_of_le (by omega))
      have heq := congrArg length hleft
      rw [hnil, append_nil, length_take] at heq
      omega
  · intro hstop hnil
    have hnonempty : rows.take (limit + 1) ≠ [] := by
      intro htake
      rw [htake] at hstop
      cases hstop
    exact fillPage_ne_nil limit summary bytes hlimit hnonempty hnil

end Fill

/-! ## The order of a scan -/

structure Scans {κ : Type} [LinearOrder κ] (down : Bool) (rank : Cell × String → κ) : Prop where
  injective : Function.Injective rank
  scanRows_eq : ∀ start rows, scanRows down start rows = ahead (rank ∘ place) (start.map rank) rows
  sortsBefore_of_le : ∀ a b, rank (place a) ≤ rank (place b) → sortsBefore down a b = true

theorem insertionSort_congr {α : Type} {r s : α → α → Prop} [DecidableRel r] [DecidableRel s]
    (h : ∀ a b, r a b ↔ s a b) (l : List α) : l.insertionSort r = l.insertionSort s := by
  obtain rfl : r = s := by
    funext a b
    exact propext (h a b)
  congr!

section Order

variable {start : Cell × String} {row a b : Selected}

theorem keysetClause_up :
    keysetClause false start row ↔ start.1 < row.2 ∨ start.1 = row.2 ∧ start.2 < row.1.id := by
  rw [@eq_comm _ start.1 row.2]
  simp [keysetClause]

theorem keysetClause_down :
    keysetClause true start row ↔ row.2 < start.1 ∨ row.2 = start.1 ∧ row.1.id < start.2 := by
  simp [keysetClause]

theorem sortsBefore_up : sortsBefore false a b ↔ a.2 < b.2 ∨ a.2 = b.2 ∧ a.1.id ≤ b.1.id := by
  simp [sortsBefore]

theorem sortsBefore_flip (down : Bool) (a b : Selected) :
    sortsBefore (!down) b a = sortsBefore down a b := by
  cases down with
  | false => simp only [sortsBefore, Bool.not_false, if_true, Bool.false_eq_true, if_false,
      @eq_comm _ b.2 a.2]
  | true => simp [sortsBefore, @eq_comm _ b.2 a.2]

end Order

/-- A scan that keeps and sorts its rows as a ranking compares their places. -/
theorem Scans.of_rank {κ : Type} [LinearOrder κ] {down : Bool} {rank : Cell × String → κ}
    (hrank : Function.Injective rank)
    (hclause : ∀ start row, keysetClause down start row ↔ rank start < rank (place row))
    (hbefore : ∀ a b, sortsBefore down a b ↔ rank (place a) ≤ rank (place b)) :
    Scans down rank where
  injective := hrank
  scanRows_eq := by
    intro start rows
    unfold scanRows ahead Keyset.inOrder
    have hfilter : (fun row => start.all fun start => keysetClause down start row) =
        fun row => Keyset.beyond (start.map rank) ((rank ∘ place) row) := by
      funext row
      cases start with
      | none => rfl
      | some start =>
        rw [Bool.eq_iff_iff, all_some, hclause, map_some, Keyset.beyond_some,
          decide_eq_true_eq, comp_apply]
    rw [hfilter]
    exact insertionSort_congr hbefore _
  sortsBefore_of_le a b := (hbefore a b).2

theorem scans_up : Scans false (toLex : Cell × String → Cell ×ₗ String) := by
  refine .of_rank toLex.injective (fun start row => ?_) fun a b => ?_
  · rw [keysetClause_up, Prod.Lex.toLex_lt_toLex]
    rfl
  · rw [sortsBefore_up, Prod.Lex.toLex_le_toLex]
    rfl

theorem scans_down : Scans true
    (fun place : Cell × String => OrderDual.toDual (toLex place : Cell ×ₗ String)) := by
  refine .of_rank (OrderDual.toDual.injective.comp toLex.injective) (fun start row => ?_)
    fun a b => ?_
  · rw [keysetClause_down, OrderDual.toDual_lt_toDual, Prod.Lex.toLex_lt_toLex]
    rfl
  · rw [← sortsBefore_flip, Bool.not_true, sortsBefore_up, OrderDual.toDual_le_toDual,
      Prod.Lex.toLex_le_toLex]
    rfl

/-! ## The rows a listing is of -/

/-- What a query that is accepted stands for. -/
structure Reads (store : Store) (listing : Listing) (condition : Row → Bool) (value : Row → Cell)
    (down : Bool) : Prop where
  condition : matching store.db (store.scoped listing.toQuery) = some condition
  value : sortValue store listing.sort = some value
  direction : descending listing.direction = some down

def Accepted (store : Store) (listing : Listing) : Prop :=
  ∃ condition value down, Reads store listing condition value down

/-- The issue ids of the query as a request to the store has it. -/
def Store.scope (store : Store) (listing : Listing) : List String :=
  (store.scoped listing.toQuery).issueIDs

/-- The cursor of every row of the result is accepted and names the row's own
place, and the label index gives the rows of the query. -/
structure Pageable (numbers : Numbers) (store : Store) (listing : Listing) : Prop where
  selects : SelectsMatching store.db (store.scoped listing.toQuery)
  cursors : ∀ condition value down, Reads store listing condition value down →
    ∀ row ∈ store.db.records, condition row = true →
      decodeCursor numbers (store.scope listing) (cursorOf (store.scope listing) (row, value row)) =
        some (value row, row.id)

def matchingRows (store : Store) (listing : Listing) : List Selected :=
  match matching store.db (store.scoped listing.toQuery), sortValue store listing.sort with
  | some condition, some value => selectedRows store condition value
  | _, _ => []

def listedRows (reverse : Bool) (items : List Selected) : List Row :=
  if reverse then (items.map Prod.fst).reverse else items.map Prod.fst

section Page

variable {numbers : Numbers} {store : Store} {listing : Listing} {condition : Row → Bool}
  {value : Row → Cell} {down reverse : Bool}

theorem Reads.matchingRows_eq (h : Reads store listing condition value down) :
    matchingRows store listing = selectedRows store condition value := by
  rw [matchingRows, h.condition, h.value]

theorem mem_selectedRows {row : Selected} : row ∈ selectedRows store condition value ↔
      row.1 ∈ store.db.records ∧ condition row.1 ∧ row.2 = value row.1 := by
  obtain ⟨row, cell⟩ := row
  simp only [selectedRows, List.mem_map, List.mem_filter, Prod.mk.injEq]
  constructor
  · rintro ⟨other, ⟨hmem, hmet⟩, rfl, rfl⟩
    exact ⟨hmem, hmet, rfl⟩
  · rintro ⟨hmem, hmet, rfl⟩
    exact ⟨row, ⟨hmem, hmet⟩, rfl, rfl⟩

theorem nodup_places {κ : Type} {rank : Cell × String → κ} (hrank : Function.Injective rank) :
    ((selectedRows store condition value).map (rank ∘ place)).Nodup := by
  have hids : ((selectedRows store condition value).map fun row => row.1.id).Nodup := by
    have hmap : (selectedRows store condition value).map (fun row => row.1.id) =
        (store.db.records.filter condition).map Row.id := by
      simp [selectedRows]
    rw [hmap]
    exact store.distinct.sublist (filter_sublist.map Row.id)
  refine pairwise_map.2 ((pairwise_map.1 hids).imp ?_)
  intro a b hne heq
  exact hne (congrArg Prod.snd (hrank heq))

theorem nodup_matchingRows {κ : Type} {rank : Cell × String → κ} (hrank : Function.Injective rank)
    (haccepted : Accepted store listing) :
    ((matchingRows store listing).map (rank ∘ place)).Nodup := by
  obtain ⟨condition, value, down, hreads⟩ := haccepted
  rw [hreads.matchingRows_eq]
  exact nodup_places hrank

theorem selectedRows_congr {selected : Row → Bool}
    (h : ∀ row ∈ store.db.records, selected row = condition row) :
    selectedRows store selected value = selectedRows store condition value := by
  rw [selectedRows, selectedRows, filter_congr h]

variable {κ : Type} [LinearOrder κ] {rank : Cell × String → κ} {cursor : Option Cursor}
  {scope : List String} {start : Option (Cell × String)}

/-- **One request** returns a page of the rows that match. -/
theorem queryIssueRecords_isPage (hreads : Reads store listing condition value down)
    (hscan : Scans (down != reverse) rank) (hpageable : Pageable numbers store listing)
    (hstart : startFrom numbers (store.scope listing) cursor = some start) :
    ∃ items more, queryIssueRecords numbers store listing cursor reverse =
        some (makePage listing (store.scope listing) cursor reverse (items, more)) ∧
      IsPage (rank ∘ place) (start.map rank) (matchingRows store listing) items more := by
  obtain ⟨selected, hselected, hsame⟩ :=
    issueRecordSelection_eq hreads.condition hpageable.selects
  obtain ⟨rest, hrest, hmore, hprogress⟩ := fillPage_take (pageLimit listing.limit) listing.summary
    store.bytes (pageLimit_pos listing.limit)
    (scanRows (down != reverse) start (matchingRows store listing))
  refine ⟨_, _, ?_, ⟨rest, ?_, hmore⟩, hprogress⟩
  · unfold Store.scope at hstart
    simp only [queryIssueRecords, hselected, hreads.value, hreads.direction, hstart]
    simp [selectedRows_congr hsame, hreads.matchingRows_eq, Store.scope]
  · rw [← hscan.scanRows_eq]
    exact hrest

theorem goesOn_makePage (hcursors : reverse → listing.cursors)
    (items : List Selected) (more : Bool) :
    (makePage listing scope cursor reverse (items, more)).goesOn reverse = more := by
  cases reverse with
  | false => rfl
  | true => simp [Page.goesOn, makePage, hcursors rfl]

theorem next_makePage (hcursors : reverse → listing.cursors) (items : List Selected) :
    (makePage listing scope cursor reverse (items, true)).next reverse =
      items.getLast?.map (cursorOf scope) := by
  cases reverse with
  | false => rfl
  | true => simp [Page.next, makePage, hcursors rfl]

theorem items_makePage (items : List Selected) (more : Bool) :
    (makePage listing scope cursor reverse (items, more)).items = listedRows reverse items := by
  cases reverse <;> simp [makePage, listedRows]

theorem startFrom_cursorOf {row : Selected} (haccepted : Accepted store listing)
    (hpageable : Pageable numbers store listing) (hrow : row ∈ matchingRows store listing) :
    startFrom numbers (store.scope listing) (some (cursorOf (store.scope listing) row)) =
      some (some (place row)) := by
  obtain ⟨condition, value, down, hreads⟩ := haccepted
  rw [hreads.matchingRows_eq, mem_selectedRows] at hrow
  obtain ⟨hmem, hmet, hvalue⟩ := hrow
  have hcursor := hpageable.cursors condition value down hreads row.1 hmem hmet
  rw [← hvalue] at hcursor
  rw [startFrom, hcursor]
  rfl

end Page

/-! ## Traversals -/

theorem finished_cons_of_goesOn {reverse : Bool} {page : Page} {pages : List Page}
    (hpage : page.goesOn reverse) :
    finished reverse (page :: pages) = finished reverse pages := by
  cases pages with
  | nil => simp [finished, hpage]
  | cons next later => simp [finished]

section Traversal

variable {numbers : Numbers} {listing : Listing} {down reverse : Bool}
variable {κ : Type} [LinearOrder κ] {rank : Cell × String → κ}
variable (hscan : Scans (down != reverse) rank) (hdown : descending listing.direction = some down)
  (hcursors : reverse = true → listing.cursors = true)
include hscan hdown hcursors

/-- What every request of a traversal does: its page, and where the next one
starts. -/
theorem follow_step {store : Store} {cursor : Option Cursor} {start : Option (Cell × String)}
    (haccepted : Accepted store listing) (hpageable : Pageable numbers store listing)
    (hstart : startFrom numbers (store.scope listing) cursor = some start) :
    ∃ page items more, queryIssueRecords numbers store listing cursor reverse = some page ∧
      page.goesOn reverse = more ∧ page.items = listedRows reverse items ∧
      IsPage (rank ∘ place) (start.map rank) (matchingRows store listing) items more ∧
      (more → ∃ row, items.getLast? = some row ∧
        startFrom numbers (store.scope listing) (page.next reverse) =
          some (some (place row))) := by
  obtain ⟨condition, value, down', hreads⟩ := haccepted
  obtain rfl : down' = down := some.inj (hreads.direction.symm.trans hdown)
  obtain ⟨items, more, hquery, hpage⟩ := queryIssueRecords_isPage hreads hscan hpageable hstart
  refine ⟨_, items, more, hquery, goesOn_makePage hcursors items more,
    items_makePage items more, hpage, ?_⟩
  rintro rfl
  obtain ⟨row, hlast⟩ : ∃ row, items.getLast? = some row :=
    isSome_iff_exists.1 (by simpa using hpage.progress rfl)
  refine ⟨row, hlast, ?_⟩
  obtain ⟨rest, hahead, -⟩ := hpage.starts
  have hrow : row ∈ ahead (rank ∘ place) (start.map rank) (matchingRows store listing) := by
    rw [hahead]
    exact mem_append_left _ (mem_of_getLast? hlast)
  rw [next_makePage hcursors, hlast]
  exact startFrom_cursorOf ⟨condition, value, down', hreads⟩ hpageable
    (Keyset.mem_ahead.1 hrow).1

/-- **A traversal** is never refused, and at its end it is a walk through the rows that match at
each request. With more requests than rows the traversal of an unchanged store ends: each page
leaves fewer rows ahead. -/
theorem follow_walk (scope : List String) :
    ∀ (stores : List Store) (cursor : Option Cursor) (start : Option (Cell × String)),
      (∀ store ∈ stores, Accepted store listing ∧ Pageable numbers store listing) →
      (∀ store ∈ stores, store.scope listing = scope) →
      startFrom numbers scope cursor = some start →
      ∃ pages reads, follow numbers listing reverse stores cursor = some pages ∧
        pages.map Page.items = reads.map (listedRows reverse) ∧
        (finished reverse pages → Walk (rank ∘ place) (start.map rank)
          ((stores.take pages.length).map fun store => matchingRows store listing) reads) ∧
        ∀ rows, (∀ store ∈ stores, matchingRows store listing = rows) →
          (ahead (rank ∘ place) (start.map rank) rows).length < stores.length →
          finished reverse pages := by
  intro stores
  induction stores with
  | nil =>
    intro cursor start _ _ _
    exact ⟨[], [], rfl, rfl, by simp [finished], by simp⟩
  | cons store later ih =>
    intro cursor start hstores hscopes hstart
    obtain ⟨haccepted, hpageable⟩ := hstores store (by simp)
    obtain rfl : store.scope listing = scope := hscopes store (by simp)
    obtain ⟨page, items, more, hquery, hgoes, hitems, hpage, hnext⟩ :=
      follow_step hscan hdown hcursors haccepted hpageable hstart
    simp only [follow, hquery, bind_some, hgoes]
    cases more with
    | false =>
      exact ⟨[page], [items], rfl, by simp [hitems], fun _ => .last hpage,
        by simp [finished, hgoes]⟩
    | true =>
      obtain ⟨row, hlast, hrow⟩ := hnext rfl
      obtain ⟨pages, reads, hfollow, hreads, hwalk, hends⟩ :=
        ih _ _ (fun store h => hstores store (by simp [h]))
          (fun store h => hscopes store (by simp [h])) hrow
      refine ⟨page :: pages, items :: reads, by simp [hfollow], by simp [hitems, hreads], ?_⟩
      rw [finished_cons_of_goesOn hgoes]
      refine ⟨fun hfinished => .next hpage hlast (hwalk hfinished), fun rows hrows hlength => ?_⟩
      have hkeys := nodup_matchingRows hscan.injective haccepted
      rw [hrows store (by simp)] at hpage hkeys
      have hsplit := congrArg length (hpage.ahead_eq hkeys hlast)
      have hsome : 0 < items.length := length_pos_iff.2 (hpage.progress rfl)
      apply hends rows (fun store h => hrows store (by simp [h]))
      rw [length_append] at hsplit
      rw [length_cons] at hlength
      simp only [map_some, comp_apply] at hsplit ⊢
      omega

end Traversal

/-! ## The promise -/

/-- An issue matches with a sort value. -/
def Keeps (store : Store) (listing : Listing) (id : String) (value : Cell) : Prop :=
  ∃ row ∈ matchingRows store listing, place row = (value, id)

/-- The rows that match, each once, in the requested order. -/
def IsListing (store : Store) (listing : Listing) (down : Bool) (rows : List Row) : Prop :=
  ∃ selected : List Selected, selected.Perm (matchingRows store listing) ∧
    selected.Pairwise (fun a b => sortsBefore down a b = true) ∧ rows = selected.map Prod.fst

/-- What a traversal promises, when each of its requests reads one of the stores. -/
structure Covers (numbers : Numbers) (listing : Listing) (reverse : Bool) (stores : List Store) :
    Prop where
  answered : (follow numbers listing reverse stores none).isSome = true
  once : ∀ pages, follow numbers listing reverse stores none = some pages →
    finished reverse pages = true → ∀ id value,
      (∀ store ∈ stores.take pages.length, Keeps store listing id value) →
      (traversed reverse pages).countP (fun row => row.id = id) = 1
  unchanged : ∀ store down, descending listing.direction = some down →
    (∀ other ∈ stores, other = store) → store.db.records.length < stores.length →
    ∃ pages, follow numbers listing reverse stores none = some pages ∧
      finished reverse pages = true ∧ IsListing store listing down (traversed reverse pages)

theorem traversed_eq {reverse : Bool} {pages : List Page} {reads : List (List Selected)}
    (h : pages.map Page.items = reads.map (listedRows reverse)) :
    traversed reverse pages = listedRows reverse reads.flatten := by
  cases reverse with
  | false =>
    simp only [traversed, Bool.false_eq_true, if_false, flatMap_def, h]
    exact map_flatten.symm
  | true =>
    simp only [traversed, listedRows, if_true, List.flatMap_def, List.map_reverse, h]
    rw [List.map_flatten, List.reverse_flatten, List.map_map]
    rfl

theorem countP_listedRows (reverse : Bool) (items : List Selected) (p : Row → Bool) :
    (listedRows reverse items).countP p = items.countP fun row => p row.1 := by
  cases reverse <;> simp [listedRows, comp_def]

section Cover

variable {numbers : Numbers} {listing : Listing} {down reverse : Bool} {stores : List Store}
variable {κ : Type} [LinearOrder κ] {rank : Cell × String → κ}

theorem value_of_keeps {store : Store} {id : String} {value : Cell} {row : Selected}
    (haccepted : Accepted store listing) (hkeeps : Keeps store listing id value)
    (hrow : row ∈ matchingRows store listing) (hid : row.1.id = id) : place row = (value, id) := by
  obtain ⟨other, hother, hplace⟩ := hkeeps
  obtain ⟨condition, rowValue, down, hreads⟩ := haccepted
  rw [hreads.matchingRows_eq, mem_selectedRows] at hrow hother
  have hsame : row.1 = other.1 := by
    apply inj_on_of_nodup_map store.distinct hrow.1 hother.1
    rw [hid]
    exact (congrArg Prod.snd hplace).symm
  rw [← hplace, place, place, hrow.2.2, hother.2.2, hsame]

theorem length_matchingRows_le (store : Store) (listing : Listing) :
    (matchingRows store listing).length ≤ store.db.records.length := by
  unfold matchingRows
  split
  · simp only [selectedRows, length_map]
    exact length_filter_le _ _
  · exact Nat.zero_le _

theorem isListing_of_ahead {store : Store} (hscan : Scans (down != reverse) rank)
    (haccepted : Accepted store listing) :
    IsListing store listing down
      (listedRows reverse (ahead (rank ∘ place) none (matchingRows store listing))) := by
  have hperm : (ahead (rank ∘ place) none (matchingRows store listing)).Perm
      (matchingRows store listing) := by
    rw [Keyset.ahead_none]
    exact Keyset.perm_inOrder _ _
  have horder : (ahead (rank ∘ place) none (matchingRows store listing)).Pairwise
      fun a b => sortsBefore (down != reverse) a b = true := by
    apply (Keyset.ahead_pairwise none (nodup_matchingRows hscan.injective haccepted)).imp
    intro a b hlt
    exact hscan.sortsBefore_of_le a b hlt.le
  cases reverse with
  | false => exact ⟨_, hperm, by simpa using horder, rfl⟩
  | true =>
    refine ⟨_, (reverse_perm _).trans hperm, ?_, by simp [listedRows]⟩
    refine pairwise_reverse.2 (horder.imp ?_)
    intro a b hbefore
    rw [← sortsBefore_flip]
    simpa using hbefore

section Covering

variable (hscan : Scans (down != reverse) rank) (hdown : descending listing.direction = some down)
  (hcursors : reverse = true → listing.cursors = true)
  (hstores : ∀ store ∈ stores, Accepted store listing ∧ Pageable numbers store listing)
  {scope : List String} (hscopes : ∀ store ∈ stores, store.scope listing = scope)
include hscan hdown hcursors hstores hscopes

theorem once_of_follow {pages : List Page}
    (hpages : follow numbers listing reverse stores none = some pages)
    (hfinished : finished reverse pages) {id : String} {value : Cell}
    (hkeeps : ∀ store ∈ stores.take pages.length, Keeps store listing id value) :
    (traversed reverse pages).countP (fun row => row.id = id) = 1 := by
  obtain ⟨pages', reads, hfollow, hreads, hwalk, -⟩ :=
    follow_walk hscan hdown hcursors scope stores none none hstores hscopes rfl
  obtain rfl : pages' = pages := some.inj (hfollow.symm.trans hpages)
  have hwalk := hwalk hfinished
  have haccepted : ∀ store ∈ stores.take pages'.length, Accepted store listing := fun store h =>
    (hstores store (mem_of_mem_take h)).1
  have hcount := hwalk.count_eq (k := rank (value, id)) (by
    intro table htable
    obtain ⟨store, hstore, rfl⟩ := mem_map.1 htable
    obtain ⟨row, hrow, hplace⟩ := hkeeps store hstore
    exact ⟨nodup_matchingRows hscan.injective (haccepted store hstore),
      mem_map.2 ⟨row, hrow, congrArg rank hplace⟩⟩)
  rw [traversed_eq hreads, countP_listedRows]
  rw [map_none, Keyset.beyond_none, if_pos rfl, count, countP_map] at hcount
  rw [← hcount]
  -- a returned row of the issue stands at its one place
  apply countP_congr
  intro row hrow
  obtain ⟨table, htable, hmem⟩ := hwalk.mem hrow
  obtain ⟨store, hstore, rfl⟩ := mem_map.1 htable
  simp only [decide_eq_true_eq, comp_apply, beq_iff_eq]
  constructor
  · intro hid
    rw [value_of_keeps (haccepted store hstore) (hkeeps store hstore) hmem hid]
  · intro heq
    exact congrArg Prod.snd (hscan.injective heq)

theorem covers_of_scans : Covers numbers listing reverse stores := by
  obtain ⟨pages, reads, hfollow, hreads, hwalk, hends⟩ :=
    follow_walk hscan hdown hcursors scope stores none none hstores hscopes rfl
  refine ⟨by simp [hfollow], ?_, ?_⟩
  · intro pages' hpages hfinished id value hkeeps
    exact once_of_follow hscan hdown hcursors hstores hscopes hpages hfinished hkeeps
  · intro store down' hdown' hsame hlength
    obtain rfl : down' = down := some.inj (hdown'.symm.trans hdown)
    have htables : ∀ other ∈ stores, matchingRows other listing = matchingRows store listing :=
      fun other h => by rw [hsame other h]
    have hstore : store ∈ stores := by
      obtain ⟨other, hother⟩ := exists_mem_of_length_pos (by omega : 0 < stores.length)
      exact hsame other hother ▸ hother
    have hrows :
        (ahead (rank ∘ place) none (matchingRows store listing)).length < stores.length := by
      rw [Keyset.ahead_none, (Keyset.perm_inOrder _ _).length_eq]
      exact lt_of_le_of_lt (length_matchingRows_le store listing) hlength
    have hfinished := hends _ htables hrows
    refine ⟨pages, hfollow, hfinished, ?_⟩
    have hflatten := (hwalk hfinished).flatten_eq
      (nodup_matchingRows hscan.injective (hstores store hstore).1) (by
        intro table htable
        obtain ⟨other, hother, rfl⟩ := mem_map.1 htable
        exact htables other (mem_of_mem_take hother))
    rw [traversed_eq hreads, hflatten]
    exact isListing_of_ahead hscan (hstores store hstore).1

end Covering

end Cover

/-- **Pages cover the result**: a traversal in either direction whose stores all
let it be paged, and have the same issues of the releases it asks for. -/
theorem follow_covers {numbers : Numbers} {listing : Listing} {reverse : Bool} {stores : List Store}
    (hstores : ∀ store ∈ stores, Accepted store listing ∧ Pageable numbers store listing)
    (hscopes : ∀ store ∈ stores, ∀ other ∈ stores, store.scope listing = other.scope listing)
    (hcursors : reverse = true → listing.cursors = true) :
    Covers numbers listing reverse stores := by
  cases stores with
  | nil =>
    refine ⟨rfl, ?_, ?_⟩
    · intro pages hpages hfinished
      cases hpages
      cases hfinished
    · intro store down _ _ hlength
      simp at hlength
  | cons store later =>
    obtain ⟨⟨condition, value, down, hreads⟩, -⟩ := hstores store (by simp)
    have hscope : ∀ other ∈ store :: later, other.scope listing = store.scope listing :=
      fun other hother => hscopes other hother store (by simp)
    cases hscan : down != reverse with
    | false => exact covers_of_scans (hscan ▸ scans_up) hreads.direction hcursors hstores hscope
    | true => exact covers_of_scans (hscan ▸ scans_down) hreads.direction hcursors hstores hscope

/-! ### Small listings -/

def digits : Numbers := ⟨fun _ => 1, id⟩

/-- All issues of a workspace, by priority, two at a time. -/
def byPriority : Listing :=
  { byStatus with
    sort := "priority", direction := "desc", limit := 2, summary := true, cursors := true }

def plainStore (db : Db) (distinct : (db.records.map Row.id).Nodup) : Store :=
  { db, distinct, releases := [], customerValue := fun _ _ => 0, bytes := fun _ => 1 }

def fourIssues : Store :=
  plainStore (issuesOnly [plainRow "a" "" "ENG" "todo",
    { plainRow "b" "" "ENG" "todo" with priority := 1 }, plainRow "c" "" "ENG" "todo",
    { plainRow "d" "" "ENG" "todo" with priority := 2 }]) (by decide)

/-- One issue has gone and one has come. -/
def fourIssuesLater : Store :=
  plainStore (issuesOnly [{ plainRow "e" "" "ENG" "todo" with priority := 3 },
    plainRow "a" "" "ENG" "todo", { plainRow "b" "" "ENG" "todo" with priority := 1 }]) (by decide)

theorem pageable_byPriority {store : Store} (hrows : ∀ row ∈ store.db.records,
      decodeCursor digits []
        (cursorOf [] (row, .number (if row.priority = 0 then 5 else row.priority))) =
        some (.number (if row.priority = 0 then 5 else row.priority), row.id)) :
    Pageable digits store byPriority := by
  constructor
  · intro rest ids h
    cases h
  intro condition value down hreads row hrow _
  have hvalue : value = fun row => Cell.number (if row.priority = 0 then 5 else row.priority) :=
    (some.inj hreads.value).symm
  rw [hvalue]
  exact hrows row hrow

/-- A traversal in reverse during which an issue is deleted and one is created. -/
theorem follow_covers_fourIssues :
    (follow digits byPriority true [fourIssues, fourIssuesLater] none).map
        (fun pages => (traversed true pages).map Row.id) = some ["a", "e", "d", "b"] ∧
      Covers digits byPriority true [fourIssues, fourIssuesLater] := by
  refine ⟨by decide, follow_covers ?_ (fun _ _ _ _ => rfl) fun _ => rfl⟩
  intro store hstore
  simp only [mem_cons, not_mem_nil, or_false] at hstore
  rcases hstore with rfl | rfl
  · exact ⟨⟨_, _, _, rfl, rfl, rfl⟩, pageable_byPriority (by decide)⟩
  · exact ⟨⟨_, _, _, rfl, rfl, rfl⟩, pageable_byPriority (by decide)⟩

/-- A page whose last cursor is refused is the last of the traversal. -/
theorem follow_refused {numbers : Numbers} {store later : Store} {listing : Listing}
    {reverse : Bool} {cursor : Option Cursor} {next : Cursor} {page : Page}
    (hpage : queryIssueRecords numbers store listing cursor reverse = some page)
    (hgoes : page.goesOn reverse) (hnext : page.next reverse = some next)
    (hrefused : decodeCursor numbers (later.scope listing) next = none) :
    follow numbers listing reverse [store, later] cursor = none := by
  have hlater : queryIssueRecords numbers later listing (some next) reverse = none := by
    unfold Store.scope at hrefused
    simp [queryIssueRecords, startFrom, hrefused]
  simp [follow, hpage, hgoes, hnext, hlater]

def byTitle : Listing := { byPriority with sort := "title", direction := "", limit := 1 }

def titled (id title : String) : Row := { plainRow id "" "ENG" "todo" with title }

def twoTitles (title : String) : Store :=
  plainStore (issuesOnly [titled "a" title, titled "b" "z"]) (by
    show ["a", "b"].Nodup
    decide)

theorem Cell.text_lt_text {a b : String} (h : a < b) : Cell.text a < Cell.text b := by
  exact Sum.Lex.inr_lt_inr_iff.2 h

theorem query_twoTitles {title : String} (htitle : title < "z") :
    queryIssueRecords digits (twoTitles title) byTitle none false =
      some (makePage byTitle [] none false ([(titled "a" title, .text title)], true)) := by
  have hbefore :
      sortsBefore false (titled "a" title, .text title) (titled "b" "z", .text "z") = true :=
    sortsBefore_up.2 (.inl (Cell.text_lt_text htitle))
  have hscan : scanRows false none [(titled "a" title, .text title), (titled "b" "z", .text "z")] =
      [(titled "a" title, .text title), (titled "b" "z", .text "z")] := by
    simp [scanRows, hbefore]
  show some (makePage byTitle [] none false (fillPage 1 true (fun _ => 1) 0 0
    ((scanRows false none
      [(titled "a" title, .text title), (titled "b" "z", .text "z")]).take 2))) = _
  rw [hscan]
  rfl

theorem cellSize_le_jsonSize (cursor : Cursor) (numbers : Numbers) :
    numbers.cellSize cursor.value + 64 ≤ cursor.jsonSize numbers := by
  unfold Cursor.jsonSize
  omega

theorem decodeCursor_longTitle {scope : List String} {row : Row} {title : String}
    (hsize : 3072 ≤ digits.cellSize (.text title)) :
    decodeCursor digits scope (cursorOf scope (row, .text title)) = none := by
  have hjson : digits.cellSize (.text title) + 64 ≤
      (cursorOf scope (row, .text title)).jsonSize digits :=
    cellSize_le_jsonSize (cursorOf scope (row, .text title)) digits
  have hlong : encodedLen ((cursorOf scope (row, .text title)).jsonSize digits) > maxCursor := by
    unfold encodedLen maxCursor
    omega
  rw [decodeCursor, if_pos (.inl hlong)]

/-- A title whose 600 characters take six bytes each in JSON. -/
def longTitle : String := String.ofList (replicate 600 '<')

theorem toList_longTitle : longTitle.toList = replicate 600 '<' := String.toList_ofList

theorem longTitle_lt : longTitle < "z" := by
  have hz : "z".toList = ['z'] := by decide
  rw [String.lt_iff_toList_lt, toList_longTitle]
  exact cons_lt_cons_iff.2 (.inl (by decide))

theorem cellSize_longTitle : 3072 ≤ digits.cellSize (.text longTitle) := by
  have hescape : JsonText.byteSize (JsonText.escape '<') = 6 := by decide
  rw [Numbers.cellSize, toList_longTitle, JsonText.byteSize_flatMap_replicate]
  omega

def statusOverLabel : Listing :=
  { byTitle with
    filter := .node [.leaf "labels" "" ["bug"]] [] none "status" "" ["todo"]
    limit := 10 }

def nestedLabel : Listing :=
  { byTitle with filter := .leaf "labels" "" ["bug"], nested := true, limit := 10 }

def labelled : Store :=
  plainStore { issuesOnly [plainRow "a" "" "ENG" "todo", plainRow "b" "" "ENG" "done",
    plainRow "c" "" "ENG" "todo", plainRow "d" "c" "ENG" "todo"] with
      labels := [("a", "bug"), ("b", "bug"), ("d", "bug")] } (by decide)

def ofRelease : Listing := { byPriority with releaseIDs := ["v1"], limit := 1 }

def released (issueIDs : List String) : Store :=
  { fourIssues with releases := [⟨"r1", "v1", issueIDs⟩] }

/-- The first page by title ends with a cursor that the next request refuses; a label that
drives the query drops the status term of its root, and, from a nested list, the issues under a
parent without it; and an issue that is added to a release refuses the cursor of its first
page. -/
theorem pages_fail :
    ((follow digits byTitle false [twoTitles longTitle] none).isSome = true ∧
      follow digits byTitle false [twoTitles longTitle, twoTitles longTitle] none = none) ∧
    ((queryIssueRecords digits labelled statusOverLabel none false).map
        (fun page => page.items.map Row.id) = some ["a", "b", "d"] ∧
      (matchingRows labelled statusOverLabel).map (fun row => row.1.id) = ["a", "d"]) ∧
    ((queryIssueRecords digits labelled nestedLabel none false).map
        (fun page => page.items.map Row.id) = some ["a", "b"] ∧
      (matchingRows labelled nestedLabel).map (fun row => row.1.id) = ["a", "b", "d"]) ∧
    (follow digits ofRelease false [released ["a", "b"], released ["a", "b"]] none).isSome = true ∧
      follow digits ofRelease false [released ["a", "b"], released ["a", "b", "c"]] none =
        none := by
  have hpage := query_twoTitles longTitle_lt
  refine ⟨⟨?_, follow_refused hpage rfl rfl (decodeCursor_longTitle cellSize_longTitle)⟩,
    ⟨?_, ?_⟩, ⟨?_, ?_⟩, ?_, ?_⟩
  · simp only [follow, hpage, bind_some]
    rfl
  · decide
  · decide
  · decide
  · decide
  · decide
  · decide

end Flow.Ports.IssueQuery
