import Flow.Verified.Utf16
import Mathlib.Data.List.Infix

/-!
# Structural diffs

The web computes the diff of two texts from a table of common subsequences: entry `(i, j)`
is the length of a longest one of the lines from `i` and from `j` on.  A walk from the first
lines keeps a line that both sides have, and else drops the line whose entry is not smaller.
For the display lines far from every change are left out, and the rest becomes one hunk.

The walk is a shortest edit script.  A hunk that was collapsed between two changes has a gap
in its numbers (`numbers_with_gap`), and there is no other way to come to one.
-/

namespace Flow.Ports.DiffComputer

open Flow.Verified.Utf16 List

inductive DiffLine where
  | add (content : Text) (newNumber : Nat)
  | remove (content : Text) (oldNumber : Nat)
  | context (content : Text) (oldNumber newNumber : Nat)
deriving DecidableEq, Repr

namespace DiffLine

def old? : DiffLine → Option (Text × Nat)
  | add _ _ => none
  | remove content oldNumber => some (content, oldNumber)
  | context content oldNumber _ => some (content, oldNumber)

def new? : DiffLine → Option (Text × Nat)
  | add content newNumber => some (content, newNumber)
  | remove _ _ => none
  | context content _ newNumber => some (content, newNumber)

def isContext : DiffLine → Bool
  | context _ _ _ => true
  | _ => false

end DiffLine

def newline : UInt16 := 10

/-- The lines of a text, whose last line may lack its end. -/
def textLines (text : Text) : List Text :=
  if text = [] then []
  else (if text.getLast? = some newline then text.dropLast else text).splitOn newline

def tableRow (line : Text) (below : List Text → Nat) : List Text → Nat
  | [] => 0
  | other :: others =>
    if line = other then below others + 1
    else max (below (other :: others)) (tableRow line below others)

/-- The table `dp`, at the lines that are left on both sides. -/
def table : List Text → List Text → Nat
  | [], _ => 0
  | line :: lines, others => tableRow line (table lines) others

/-- The walk at one line of the original, until it is kept or removed. -/
def walkLine (line : Text) (lines : List Text) (rest : List Text → Nat → Nat → List DiffLine) :
    List Text → Nat → Nat → List DiffLine
  | [], old, new => .remove line old :: rest [] (old + 1) new
  | other :: others, old, new =>
    if line = other then .context line old new :: rest others (old + 1) (new + 1)
    else if table lines (other :: others) ≥ table (line :: lines) others then
      .remove line old :: rest (other :: others) (old + 1) new
    else .add other new :: walkLine line lines rest others old (new + 1)

def walk : List Text → List Text → Nat → Nat → List DiffLine
  | [], others, _, new => (others.zipIdx new).map fun (other, new) => .add other new
  | line :: lines, others, old, new => walkLine line lines (walk lines) others old new

def computeStructuralLines (original modified : Text) : List DiffLine :=
  walk (textLines original) (textLines modified) 1 1

/-- The loop of `pairDiffLines`, with the lines that it has collected: a context line, or a
removed line after an added one, ends the change. -/
def pairFrom (removed added : List DiffLine) :
    List DiffLine → List (Option DiffLine × Option DiffLine)
  | [] => zipWithAll Prod.mk removed added
  | .context content old new :: lines =>
    let line := .context content old new
    zipWithAll Prod.mk removed added ++ (some line, some line) :: pairFrom [] [] lines
  | .remove content old :: lines =>
    if added = [] then pairFrom (removed ++ [.remove content old]) [] lines
    else zipWithAll Prod.mk removed added ++ pairFrom [.remove content old] [] lines
  | .add content new :: lines => pairFrom removed (added ++ [.add content new]) lines

def pairDiffLines (lines : List DiffLine) : List (Option DiffLine × Option DiffLine) :=
  pairFrom [] [] lines

/-! ## The walk is a shortest edit script -/

/-- The lines lead from one text to the other, are numbered from the given numbers on, and
keep `count` lines, a common subsequence. -/
structure EditScript (lines others : List Text) (old new count : Nat)
    (script : List DiffLine) : Prop where
  original : script.filterMap DiffLine.old? = lines.zipIdx old
  modified : script.filterMap DiffLine.new? = others.zipIdx new
  kept : script.countP DiffLine.isContext = count
  common : ∃ common, common <+ lines ∧ common <+ others ∧ common.length = count

section Walk

variable {line other : Text} {lines others common : List Text} {old new count : Nat}
  {script : List DiffLine}

theorem EditScript.context (h : EditScript lines others (old + 1) (new + 1) count script) :
    EditScript (line :: lines) (line :: others) old new (count + 1)
      (.context line old new :: script) := by
  obtain ⟨horiginal, hmodified, hkept, common, hlines, hothers, hlength⟩ := h
  exact ⟨congrArg (cons _) horiginal, congrArg (cons _) hmodified,
    (countP_cons_of_pos rfl).trans (congrArg (· + 1) hkept), line :: common,
    hlines.cons_cons _, hothers.cons_cons _, congrArg (· + 1) hlength⟩

theorem EditScript.remove (h : EditScript lines others (old + 1) new count script) :
    EditScript (line :: lines) others old new count (.remove line old :: script) := by
  obtain ⟨horiginal, hmodified, hkept, common, hlines, hothers, hlength⟩ := h
  exact ⟨congrArg (cons _) horiginal, hmodified, hkept, common, hlines.cons _, hothers, hlength⟩

theorem EditScript.add (h : EditScript lines others old (new + 1) count script) :
    EditScript lines (other :: others) old new count (.add other new :: script) := by
  obtain ⟨horiginal, hmodified, hkept, common, hlines, hothers, hlength⟩ := h
  exact ⟨horiginal, congrArg (cons _) hmodified, hkept, common, hlines, hothers.cons _, hlength⟩

@[simp]
theorem table_cons_cons : table (line :: lines) (other :: others) =
    if line = other then table lines others + 1
    else max (table lines (other :: others)) (table (line :: lines) others) := rfl

/-- No common subsequence is longer than the table says. -/
theorem length_le_table (h : common <+ lines) (h' : common <+ others) :
    common.length ≤ table lines others := by
  induction lines generalizing common others with
  | nil => simp [sublist_nil.mp h]
  | cons line lines ih =>
    induction others generalizing common with
    | nil => simp [sublist_nil.mp h']
    | cons other others ih' =>
      rw [table_cons_cons]
      by_cases heq : line = other
      · -- both heads can be used up together
        have hle := ih h.tail h'.tail
        rw [length_tail, tail_cons] at hle
        rw [if_pos heq]
        omega
      · rw [if_neg heq]
        rcases sublist_cons_iff.mp h with h | ⟨_, rfl, _⟩
        · exact (ih h h').trans (Nat.le_max_left _ _)
        · rcases sublist_cons_iff.mp h' with h' | ⟨_, hcons, _⟩
          · exact (ih' h h').trans (Nat.le_max_right _ _)
          · exact absurd (cons.inj hcons).1 heq

/-- **The walk keeps as many lines as the table says.** -/
theorem walk_script (lines others : List Text) (old new : Nat) :
    EditScript lines others old new (table lines others) (walk lines others old new) := by
  induction lines generalizing others old new with
  | nil =>
    induction others generalizing new with
    | nil => exact ⟨rfl, rfl, rfl, [], .slnil, .slnil, rfl⟩
    | cons other others ih => exact (ih (new + 1)).add
  | cons line lines ih =>
    unfold walk
    induction others generalizing old new with
    | nil =>
      have hempty : table lines [] = 0 := by cases lines <;> rfl
      exact (hempty ▸ ih [] (old + 1) new).remove
    | cons other others ih' =>
      unfold walkLine
      rw [table_cons_cons]
      by_cases heq : line = other
      · rw [if_pos heq, if_pos heq, ← heq]
        exact (ih others (old + 1) (new + 1)).context
      · rw [if_neg heq, if_neg heq]
        by_cases hge : table lines (other :: others) ≥ table (line :: lines) others
        · rw [if_pos hge, Nat.max_eq_left hge]
          exact (ih (other :: others) (old + 1) new).remove
        · rw [if_neg hge, Nat.max_eq_right (Nat.le_of_not_ge hge)]
          exact (ih' old (new + 1)).add

end Walk

theorem filterMap_zipWithAll (removed added : List DiffLine) :
    (zipWithAll Prod.mk removed added).filterMap Prod.fst = removed ∧
      (zipWithAll Prod.mk removed added).filterMap Prod.snd = added := by
  induction removed generalizing added with
  | nil => simp
  | cons line removed ih => cases added <;> simp [ih]

/-- **Every line stands once on each of its sides, in order.** -/
theorem pairFrom_sides (removed added lines : List DiffLine) :
    (pairFrom removed added lines).filterMap Prod.fst = removed ++ lines.filter (·.old?.isSome) ∧
      (pairFrom removed added lines).filterMap Prod.snd =
        added ++ lines.filter (·.new?.isSome) := by
  induction lines generalizing removed added with
  | nil => simp [pairFrom, filterMap_zipWithAll]
  | cons line lines ih =>
    cases line with
    | add => simp_all [pairFrom, DiffLine.old?, DiffLine.new?]
    | remove =>
      unfold pairFrom
      split <;> simp_all [filterMap_zipWithAll, DiffLine.old?, DiffLine.new?]
    | context => simp_all [pairFrom, filterMap_zipWithAll, DiffLine.old?, DiffLine.new?]

/-- **The structural diff is a shortest edit script**: it has the numbered lines of both texts,
and keeps as many as a longest common subsequence. Both columns of the view show all lines of
their side. -/
theorem computeStructuralLines_shortest (original modified : Text) :
    let script := computeStructuralLines original modified
    let kept := script.countP DiffLine.isContext
    script.filterMap DiffLine.old? = (textLines original).zipIdx 1 ∧
    script.filterMap DiffLine.new? = (textLines modified).zipIdx 1 ∧
    (∃ common, common <+ textLines original ∧ common <+ textLines modified ∧
      common.length = kept) ∧
    (∀ common, common <+ textLines original → common <+ textLines modified →
      common.length ≤ kept) ∧
    ∀ lines, (pairDiffLines lines).filterMap Prod.fst = lines.filter (·.old?.isSome) ∧
      (pairDiffLines lines).filterMap Prod.snd = lines.filter (·.new?.isSome) := by
  intro script kept
  have hscript := walk_script (textLines original) (textLines modified) 1 1
  have hkept : kept = table (textLines original) (textLines modified) := hscript.kept
  rw [hkept]
  exact ⟨hscript.original, hscript.modified, hscript.common, fun _ => length_le_table,
    pairFrom_sides [] []⟩

/-! ## Collapsed lines and hunks -/

structure DiffHunk where
  oldStart : Nat
  oldCount : Nat
  newStart : Nat
  newCount : Nat
  header : Text
  lines : List DiffLine
deriving DecidableEq, Repr

def changeAt (lines : List DiffLine) (i : Nat) : Bool := lines[i]?.any (!·.isContext)

def keeps (lines : List DiffLine) (i : Nat) : Bool :=
  (range lines.length).any fun j => changeAt lines j && decide (j ≤ i + 3 ∧ i ≤ j + 3)

def collapseUnchanged (lines : List DiffLine) : List DiffLine :=
  (lines.zipIdx.filter fun line => keeps lines line.2).map Prod.fst

def linesToSingleHunk (lines : List DiffLine) : List DiffHunk :=
  if lines = [] then []
  else
    let oldNumbers := (lines.filterMap DiffLine.old?).map Prod.snd
    let newNumbers := (lines.filterMap DiffLine.new?).map Prod.snd
    let oldStart := oldNumbers.head?.getD 1
    let newStart := newNumbers.head?.getD 1
    let oldCount := oldNumbers.length
    let newCount := newNumbers.length
    [⟨oldStart, oldCount, newStart, newCount,
      units s!"@@ -{oldStart},{oldCount} +{newStart},{newCount} @@", lines⟩]

structure ComputedFileDiff where
  hunks : List DiffHunk
  lines : List DiffLine
  splitRows : List (Option DiffLine × Option DiffLine)
  additions : Nat
  deletions : Nat

/-- The structural diff of a file of which both texts are given.  The options collapse unless
the input says otherwise, and `detectMoves` leaves the lines as they are. -/
def buildComputedFileDiff (original modified : Text) (collapseUnchangedAreas : Option Bool) :
    ComputedFileDiff :=
  let lines := computeStructuralLines original modified
  let lines := if collapseUnchangedAreas.getD true then collapseUnchanged lines else lines
  ⟨linesToSingleHunk lines, lines, pairDiffLines lines, lines.countP (·.old?.isNone),
    lines.countP (·.new?.isNone)⟩

theorem eq_range'_of_infix {numbers : List Nat} {start count : Nat}
    (h : numbers <:+: range' start count) :
    numbers = range' (numbers.head?.getD 1) numbers.length := by
  obtain ⟨before, after, h⟩ := h
  rw [append_assoc] at h
  obtain ⟨k, -, -, hrest⟩ := range'_eq_append_iff.mp h.symm
  obtain ⟨j, -, rfl, -⟩ := range'_eq_append_iff.mp hrest.symm
  cases j <;> simp [range'_succ]

section Collapse

variable {lines : List DiffLine} {i j m : Nat}

theorem changeAt_iff : changeAt lines i ↔ ∃ line, lines[i]? = some line ∧ !line.isContext := by
  unfold changeAt
  cases lines[i]? <;> simp

theorem keeps_iff : keeps lines m ↔ ∃ j, changeAt lines j ∧ j ≤ m + 3 ∧ m ≤ j + 3 := by
  unfold keeps
  rw [any_eq_true]
  constructor
  · rintro ⟨j, -, hj⟩
    exact ⟨j, by simpa using hj⟩
  · rintro ⟨j, hchange, hnear⟩
    obtain ⟨line, hline, -⟩ := changeAt_iff.mp hchange
    have hlength := (List.getElem?_eq_some_iff.mp hline).1
    exact ⟨j, mem_range.mpr hlength, by simp [hchange, hnear]⟩

theorem mem_collapseUnchanged {line : DiffLine} : line ∈ collapseUnchanged lines ↔
    ∃ i, lines[i]? = some line ∧ keeps lines i := by
  unfold collapseUnchanged
  rw [mem_map]
  constructor
  · rintro ⟨⟨line, i⟩, hmem, rfl⟩
    rw [mem_filter, mem_zipIdx_iff_getElem?] at hmem
    exact ⟨i, hmem⟩
  · rintro ⟨i, hline⟩
    exact ⟨(line, i), mem_filter.mpr ⟨mem_zipIdx_iff_getElem?.mpr hline.1, hline.2⟩, rfl⟩

theorem collapseUnchanged_changes (lines : List DiffLine) :
    (collapseUnchanged lines).filter (!·.isContext) = lines.filter (!·.isContext) := by
  conv_rhs => rw [← zipIdx_map_fst 0 lines]
  unfold collapseUnchanged
  rw [filter_map, filter_map, List.filter_filter]
  refine congrArg (map Prod.fst) (filter_congr fun line hline => ?_)
  by_cases hcontext : line.1.isContext
  · simp [hcontext]
  · have hline := mem_zipIdx_iff_getElem?.mp hline
    have hkeeps : keeps lines line.2 :=
      keeps_iff.mpr ⟨line.2, changeAt_iff.mpr ⟨line.1, hline, by simp [hcontext]⟩, by omega⟩
    simp [hkeeps]

/-- At most six lines between two changes that follow each other. -/
def ChangesClose (lines : List DiffLine) : Prop :=
  ∀ i j, i < j → changeAt lines i → changeAt lines j →
    (∀ k, i < k → k < j → ¬ changeAt lines k) → j ≤ i + 7

/-- A line between two changes is kept. The induction is on the distance of the changes. -/
theorem ChangesClose.keeps_between (h : ChangesClose lines) (n : Nat) (hn : j - i ≤ n)
    (hi : changeAt lines i) (hj : changeAt lines j) (him : i ≤ m) (hmj : m ≤ j) :
    keeps lines m := by
  induction n generalizing i j with
  | zero => exact keeps_iff.mpr ⟨i, hi, by omega⟩
  | succ n ih =>
    by_cases hbetween : ∃ k, i < k ∧ k < j ∧ changeAt lines k
    · obtain ⟨k, hik, hkj, hk⟩ := hbetween
      by_cases hmk : m ≤ k
      · exact ih (by omega) hi hk him hmk
      · exact ih (by omega) hk hj (by omega) hmj
    · by_cases hnear : m ≤ i + 3
      · exact keeps_iff.mpr ⟨i, hi, by omega⟩
      · have hclose := h i j (by omega) hi hj fun k hik hkj hk => hbetween ⟨k, hik, hkj, hk⟩
        exact keeps_iff.mpr ⟨j, hj, by omega⟩

theorem ChangesClose.keeps_convex (h : ChangesClose lines) (hi : keeps lines i)
    (hj : keeps lines j) (him : i ≤ m) (hmj : m ≤ j) : keeps lines m := by
  obtain ⟨a, ha, hai⟩ := keeps_iff.mp hi
  obtain ⟨b, hb, hbj⟩ := keeps_iff.mp hj
  by_cases hma : m ≤ a + 3
  · exact keeps_iff.mpr ⟨a, ha, by omega⟩
  · by_cases hbm : b ≤ m + 3
    · exact keeps_iff.mpr ⟨b, hb, by omega⟩
    · exact h.keeps_between (b - a) (Nat.le_refl _) ha hb (by omega) (by omega)

end Collapse

section Places

variable {α : Type} {p : Nat → Bool}

/-- The places of a prefix are those below some place. -/
theorem filter_zipIdx_isPrefix (l : List α) (n : Nat)
    (hp : ∀ i j, n ≤ i → i ≤ j → p j → p i) :
    ((l.zipIdx n).filter fun entry => p entry.2).map Prod.fst <+: l := by
  induction l generalizing n with
  | nil => exact nil_prefix
  | cons a l ih =>
    rw [zipIdx_cons]
    by_cases hn : p n
    · rw [filter_cons_of_pos (by exact hn), map_cons]
      exact prefix_cons_inj a |>.mpr (ih (n + 1) fun i j hi => hp i j (by omega))
    · rw [filter_eq_nil_iff.mpr]
      · exact nil_prefix
      · rintro ⟨b, j⟩ hb hj
        have hle : n ≤ j := by
          rcases mem_cons.mp hb with heq | hb
          · exact (Prod.mk.inj heq).2.ge
          · exact Nat.le_of_succ_le (le_snd_of_mem_zipIdx hb)
        exact hn (hp n j (Nat.le_refl n) hle hj)

theorem filter_zipIdx_infix (l : List α) (n : Nat)
    (hp : ∀ i m j, i ≤ m → m ≤ j → p i → p j → p m) :
    ((l.zipIdx n).filter fun entry => p entry.2).map Prod.fst <:+: l := by
  induction l generalizing n with
  | nil => exact nil_infix
  | cons a l ih =>
    by_cases hn : p n
    · exact (filter_zipIdx_isPrefix (a :: l) n fun i j hi hij hj => hp n i j hi hij hn hj).isInfix
    · rw [zipIdx_cons, filter_cons_of_neg (by exact hn)]
      exact (ih (n + 1)).trans (suffix_cons a l).isInfix

end Places

/-- Old numbers go up with the places of their lines. -/
theorem EditScript.old_lt {texts others : List Text} {old new count i j x y : Nat}
    {lines : List DiffLine} {line other : DiffLine} {content content' : Text}
    (h : EditScript texts others old new count lines) (hi : lines[i]? = some line)
    (hj : lines[j]? = some other) (hx : line.old? = some (content, x))
    (hy : other.old? = some (content', y)) (hij : i < j) : x < y := by
  have hsorted : (lines.filterMap DiffLine.old?).Pairwise (fun a b => a.2 < b.2) := by
    rw [h.original, ← pairwise_map, zipIdx_map_snd]
    exact pairwise_lt_range'
  obtain ⟨hilt, rfl⟩ := List.getElem?_eq_some_iff.mp hi
  obtain ⟨hjlt, rfl⟩ := List.getElem?_eq_some_iff.mp hj
  exact pairwise_iff_getElem.mp (pairwise_filterMap.mp hsorted) i j hilt hjlt hij _ hx _ hy

theorem old?_of_not_changeAt {lines : List DiffLine} {i : Nat} (hi : i < lines.length)
    (h : ¬ changeAt lines i) : ∃ line content number, lines[i]? = some line ∧
      line.old? = some (content, number) := by
  refine ⟨lines[i], ?_⟩
  have hcontext : lines[i].isContext := by
    by_contra hcontext
    exact h (changeAt_iff.mpr ⟨lines[i], getElem?_eq_getElem hi, by simpa using hcontext⟩)
  match hline : lines[i] with
  | .context content old _ => exact ⟨content, old, hline ▸ getElem?_eq_getElem hi, rfl⟩
  | .add _ _ | .remove _ _ =>
    rw [hline] at hcontext
    cases hcontext

/-- A line that is left out between two changes leaves a gap in the old numbers. -/
theorem changesClose_of_range {texts others : List Text} {old new count start length : Nat}
    {lines : List DiffLine} (h : EditScript texts others old new count lines)
    (hrange : ((collapseUnchanged lines).filterMap DiffLine.old?).map Prod.snd =
      range' start length) : ChangesClose lines := by
  intro i j hij hi hj hbetween
  by_contra hfar
  obtain ⟨_, hj', -⟩ := changeAt_iff.mp hj
  have hlength := (List.getElem?_eq_some_iff.mp hj').1
  have hcontext (k : Nat) (hik : i < k) (hkj : k < j) :=
    old?_of_not_changeAt (show k < lines.length by omega) (hbetween k hik hkj)
  obtain ⟨first, _, x, hfirst, hx⟩ := hcontext (i + 1) (by omega) (by omega)
  obtain ⟨left, _, y, hleft, hy⟩ := hcontext (i + 4) (by omega) (by omega)
  obtain ⟨last, _, z, hlast, hz⟩ := hcontext (j - 1) (by omega) (by omega)
  have hmem {number : Nat} : number ∈ range' start length ↔ ∃ k line content,
      lines[k]? = some line ∧ keeps lines k ∧ line.old? = some (content, number) := by
    rw [← hrange, mem_map]
    constructor
    · rintro ⟨⟨content, number⟩, hnumber, rfl⟩
      obtain ⟨line, hline, hold⟩ := mem_filterMap.mp hnumber
      obtain ⟨k, hk, hkeeps⟩ := mem_collapseUnchanged.mp hline
      exact ⟨k, line, content, hk, hkeeps, hold⟩
    · rintro ⟨k, line, content, hk, hkeeps, hold⟩
      exact ⟨(content, number), mem_filterMap.mpr
        ⟨line, mem_collapseUnchanged.mpr ⟨k, hk, hkeeps⟩, hold⟩, rfl⟩
  have hxmem := hmem.mpr ⟨i + 1, first, _, hfirst, keeps_iff.mpr ⟨i, hi, by omega⟩, hx⟩
  have hzmem := hmem.mpr ⟨j - 1, last, _, hlast, keeps_iff.mpr ⟨j, hj, by omega⟩, hz⟩
  have hxy := h.old_lt hfirst hleft hx hy (by omega)
  have hyz := h.old_lt hleft hlast hy hz (by omega)
  rw [mem_range'_1] at hxmem hzmem
  -- so the number of the line left out is among those of the kept lines
  obtain ⟨k, line, _, hk, hkeeps, hold⟩ := hmem.mp (mem_range'_1.mpr (by omega) : y ∈ _)
  rcases Nat.lt_trichotomy k (i + 4) with hlt | rfl | hlt
  · exact absurd (h.old_lt hk hleft hold hy hlt) (Nat.lt_irrefl y)
  · obtain ⟨c, hc, hnear⟩ := keeps_iff.mp hkeeps
    exact hbetween c (by omega) (by omega) hc
  · exact absurd (h.old_lt hleft hk hy hold hlt) (Nat.lt_irrefl y)

/-- **Hunks are well formed** exactly where unchanged areas are not collapsed, or no two changes
that follow each other have more than six lines between them; they have all changes anyway. -/
theorem buildComputedFileDiff_wellFormed (original modified : Text) (collapse : Option Bool) :
    let hunks := (buildComputedFileDiff original modified collapse).hunks
    ((∀ hunk ∈ hunks,
        (hunk.lines.filterMap DiffLine.old?).map Prod.snd =
          range' hunk.oldStart hunk.oldCount ∧
        (hunk.lines.filterMap DiffLine.new?).map Prod.snd =
          range' hunk.newStart hunk.newCount) ↔
      collapse = some false ∨ ChangesClose (computeStructuralLines original modified)) ∧
    (hunks.flatMap DiffHunk.lines).filter (!·.isContext) =
      (computeStructuralLines original modified).filter (!·.isContext) := by
  intro hunks
  let script := computeStructuralLines original modified
  have hscript : EditScript _ _ 1 1 _ script :=
    walk_script (textLines original) (textLines modified) 1 1
  obtain ⟨lines, hhunks, hlines⟩ : ∃ lines, hunks = linesToSingleHunk lines ∧
      lines = if collapse.getD true then collapseUnchanged script else script :=
    ⟨_, rfl, rfl⟩
  have hnumbers (hfollow : lines <:+: script) {side : DiffLine → Option (Text × Nat)}
      {texts : List Text} (hside : script.filterMap side = texts.zipIdx 1) :=
    eq_range'_of_infix (zipIdx_map_snd 1 texts ▸ hside ▸ (hfollow.filterMap side).map Prod.snd)
  have hchanges : lines.filter (!·.isContext) = script.filter (!·.isContext) := by
    rw [hlines]
    split
    · exact collapseUnchanged_changes script
    · rfl
  rw [hhunks, linesToSingleHunk]
  refine ⟨⟨fun hwell => ?_, fun hclose => ?_⟩, ?_⟩
  · by_cases hcollapse : collapse.getD true
    · rw [if_pos hcollapse] at hlines
      right
      by_cases hempty : lines = []
      · exact @changesClose_of_range _ _ _ _ _ 0 0 _ hscript (by rw [← hlines, hempty]; rfl)
      · rw [if_neg hempty] at hwell
        exact changesClose_of_range hscript (hlines ▸ (hwell _ (mem_singleton.mpr rfl)).1)
    · left
      cases collapse with
      | none => exact absurd rfl hcollapse
      | some value => simpa using hcollapse
  · have hfollow : lines <:+: script := by
      rw [hlines]
      split
      · rename_i hcollapse
        have hclose := hclose.resolve_left (by rintro rfl; contradiction)
        exact filter_zipIdx_infix script 0 fun i m j him hmj hi hj =>
          hclose.keeps_convex hi hj him hmj
      · exact infix_rfl
    by_cases hempty : lines = []
    · simp [hempty]
    · rw [if_neg hempty]
      intro hunk hhunk
      obtain rfl := mem_singleton.mp hhunk
      exact ⟨hnumbers hfollow hscript.original, hnumbers hfollow hscript.modified⟩
  · show _ = script.filter _
    rw [← hchanges]
    by_cases hempty : lines = []
    · simp [hempty]
    · rw [if_neg hempty, flatMap_singleton]

theorem counts_add_context (lines : List DiffLine) :
    lines.countP (·.old?.isNone) + lines.countP DiffLine.isContext =
        (lines.filterMap DiffLine.new?).length ∧
      lines.countP (·.new?.isNone) + lines.countP DiffLine.isContext =
        (lines.filterMap DiffLine.old?).length := by
  induction lines with
  | nil => exact ⟨rfl, rfl⟩
  | cons line lines ih =>
    cases line <;> grind [DiffLine.old?, DiffLine.new?, DiffLine.isContext]

theorem countP_collapsed {p : DiffLine → Bool} (hp : ∀ line, p line = (p line && !line.isContext))
    (lines : List DiffLine) : (collapseUnchanged lines).countP p = lines.countP p := by
  rw [funext hp, ← countP_filter, ← countP_filter, collapseUnchanged_changes]

/-- **A diff counts the changes of a shortest edit script**, however it is collapsed. -/
theorem counts_shortest (original modified : Text) (collapse : Option Bool) :
    let diff := buildComputedFileDiff original modified collapse
    ∃ common, common <+ textLines original ∧ common <+ textLines modified ∧
      (∀ other, other <+ textLines original → other <+ textLines modified →
        other.length ≤ common.length) ∧
      diff.additions + common.length = (textLines modified).length ∧
      diff.deletions + common.length = (textLines original).length := by
  intro diff
  let script := computeStructuralLines original modified
  obtain ⟨horiginal, hmodified, hkept, common, hold, hnew, hlength⟩ :
      EditScript (textLines original) (textLines modified) 1 1 _ script := walk_script _ _ 1 1
  refine ⟨common, hold, hnew, fun other h h' => hlength ▸ length_le_table h h', ?_⟩
  have hcounts := counts_add_context script
  rw [horiginal, hmodified, hkept, length_zipIdx, length_zipIdx, ← hlength] at hcounts
  by_cases hcollapse : collapse.getD true
  · simp only [diff, buildComputedFileDiff, hcollapse, ite_true]
    rw [countP_collapsed (by rintro (_ | _ | _) <;> rfl),
      countP_collapsed (by rintro (_ | _ | _) <;> rfl)]
    exact hcounts
  · simpa [diff, buildComputedFileDiff, hcollapse] using hcounts

/-- The first and the last of nine lines are removed: the fifth line is collapsed, and the
old numbers of the hunk that starts at line 1 leave out 5. -/
theorem numbers_with_gap :
    let diff := buildComputedFileDiff (units "p\nc\nc\nc\nc\nc\nc\nc\nq")
      (units "c\nc\nc\nc\nc\nc\nc") none
    diff.hunks.map DiffHunk.oldStart = [1] ∧ diff.hunks.map DiffHunk.oldCount = [8] ∧
      (diff.lines.filterMap DiffLine.old?).map Prod.snd = [1, 2, 3, 4, 6, 7, 8, 9] := by
  decide

end Flow.Ports.DiffComputer
