import Flow.Ports.MetadataCache
import Flow.Verified.Slots
import Mathlib.Data.List.Nodup

/-!
# Answers from the metadata cache

A copy that is marked with a stamp of the current generation holds the rows of the
stamp's revision, and so it is while a read of this generation that has seen the mark
goes on; a fill of the current generation has written the rows that it has not to write
any more.  Of an older generation nothing is known, and nothing is needed: the last look
at the generation turns the read away.
-/

namespace Flow.Ports.MetadataCache

open List Option Flow.Verified Bool

theorem perm_readField (rows : List Row) {todo : List String} {field : String}
    (hnodup : todo.Nodup) (hfield : field ∈ todo) :
    ((rows.filter fun row => row.field ∉ todo) ++ rows.filter fun row => row.field = field).Perm
      (rows.filter fun row => row.field ∉ todo.erase field) := by
  have hold : (rows.filter fun row => row.field ∉ todo) =
      (rows.filter fun row => row.field ∉ todo.erase field).filter fun row =>
        !decide (row.field = field) := by
    rw [List.filter_filter]
    refine List.filter_congr fun row _ => ?_
    by_cases hrow : row.field = field
    · simp [hrow, hfield]
    · simp [hrow]
  have hnew : (rows.filter fun row => row.field = field) =
      (rows.filter fun row => row.field ∉ todo.erase field).filter fun row =>
        decide (row.field = field) := by
    rw [List.filter_filter]
    refine List.filter_congr fun row _ => ?_
    by_cases hrow : row.field = field
    · simp [hrow, hnodup.mem_erase_iff]
    · simp [hrow]
  rw [hold, hnew]
  exact List.perm_append_comm.trans (List.filter_append_perm _ _)

variable {rows : List Row}

theorem hset_perm {st : State} {todo : List Row} {row : Row}
    (hnodup : (rows.map Row.id).Nodup) (hperm : (st.cached ++ todo).Perm rows)
    (hrow : row ∈ todo) : ((st.hset row).cached ++ todo.erase row).Perm rows := by
  have hids := (hperm.map Row.id).nodup_iff.mpr hnodup
  rw [map_append] at hids
  have hkeep : (st.cached.filter fun old => old.id ≠ row.id) = st.cached := by
    refine filter_eq_self.mpr fun old hold => decide_eq_true fun heq => ?_
    exact disjoint_of_nodup_append hids (mem_map_of_mem hold)
      (heq ▸ mem_map_of_mem hrow)
  unfold State.hset
  rw [hkeep]
  have hmiddle : (row :: st.cached ++ todo.erase row).Perm (st.cached ++ row :: todo.erase row) :=
    perm_middle.symm
  have htodo : (st.cached ++ row :: todo.erase row).Perm (st.cached ++ todo) :=
    (perm_cons_erase hrow).symm.append_left _
  exact hmiddle.trans (htodo.trans hperm)

/-! ## The invariant -/

/-- What an answer depends on: the rows in the database and in the hashes. -/
structure View where
  history : List (List Row)
  generation : Nat
  cached : List Row

def State.view (st : State) : View := { st with }

def View.rowsAt (v : View) (revision : Nat) : List Row := v.history[revision]?.getD []

structure Valid (v : View) (stamp : Stamp) : Prop where
  generation : stamp.generation ≤ v.generation
  revision : stamp.revision < v.history.length

structure Read (v : View) (fields : List String) (stamp : Stamp) (todo : List String)
    (rows : List Row) : Prop where
  cached : v.cached.Perm (v.rowsAt stamp.revision)
  rows : rows.Perm (((v.rowsAt stamp.revision).filter fun row => row.field ∈ fields).filter
    fun row => row.field ∉ todo)

/-- What holds of a loader; of the hashes, only for the current generation. -/
def Good (v : View) : Loader → Prop
  | .started fields => fields.Nodup
  | .stamping fields generation => fields.Nodup ∧ generation ≤ v.generation
  | .stamped fields stamp => fields.Nodup ∧ Valid v stamp
  | .reading fields stamp todo rows =>
    todo.Nodup ∧ todo ⊆ fields ∧ Valid v stamp ∧
      (stamp.generation = v.generation → Read v fields stamp todo rows)
  | .answered answer =>
    answer.stamp.revision < v.history.length ∧
      answer.rows.Perm
        ((v.rowsAt answer.stamp.revision).filter fun row => row.field ∈ answer.fields)
  | .missed stamp => Valid v stamp
  | .loaded stamp rows | .claiming stamp rows | .listing stamp rows | .deleting stamp rows _ =>
    Valid v stamp ∧ rows = v.rowsAt stamp.revision
  | .writing stamp rows todo =>
    Valid v stamp ∧ rows = v.rowsAt stamp.revision ∧
      (stamp.generation = v.generation → (v.cached ++ todo).Perm rows)
  | .written stamp rows | .marking stamp rows =>
    Valid v stamp ∧ rows = v.rowsAt stamp.revision ∧
      (stamp.generation = v.generation → v.cached.Perm rows)
  | .ended => True

def Marked (v : View) (stamp : Stamp) : Prop :=
  Valid v stamp ∧
    (stamp.generation = v.generation → v.cached.Perm (v.rowsAt stamp.revision))

structure Inv (st : State) : Prop where
  ids : ∀ rows ∈ st.history, (rows.map Row.id).Nodup
  ready : ∀ stamp, st.ready = some stamp → Marked st.view stamp
  loaders : ∀ loader ∈ st.loaders, Good st.view loader

theorem inv_start : Inv State.start where
  ids := by simp [State.start]
  ready _ h := by cases h
  loaders _ h := by cases h

theorem Inv.nodup_rowsAt {st : State} (h : Inv st) (revision : Nat) :
    ((st.rowsAt revision).map Row.id).Nodup := by
  unfold State.rowsAt
  cases hrows : st.history[revision]? with
  | none => exact nodup_nil
  | some rows => exact h.ids rows (mem_of_getElem? hrows)

/-! ## What a step leaves alone -/

section Frame

variable {v : View} {stamp : Stamp} {loader : Loader}

theorem rowsAt_commit {revision : Nat} (h : revision < v.history.length) :
    View.rowsAt { v with history := v.history ++ [rows] } revision =
      v.rowsAt revision := by
  unfold View.rowsAt
  rw [getElem?_append_left h]

theorem Valid.commit (h : Valid v stamp) : Valid { v with history := v.history ++ [rows] } stamp :=
  ⟨h.generation, h.revision.trans_le (by simp)⟩

theorem Good.commit (h : Good v loader) :
    Good { v with history := v.history ++ [rows] } loader := by
  cases loader with
  | started | stamping | ended => exact h
  | stamped => exact ⟨h.1, h.2.commit⟩
  | reading =>
    obtain ⟨hnodup, hsubset, hvalid, hread⟩ := h
    refine ⟨hnodup, hsubset, hvalid.commit, fun hcurrent => ?_⟩
    have hread := hread hcurrent
    constructor
    · rw [rowsAt_commit hvalid.revision]
      exact hread.cached
    · rw [rowsAt_commit hvalid.revision]
      exact hread.rows
  | answered =>
    refine ⟨h.1.trans_le (by simp), ?_⟩
    rw [rowsAt_commit h.1]
    exact h.2
  | missed => exact Valid.commit h
  | loaded | claiming | listing | deleting =>
    exact ⟨h.1.commit, h.2.trans (rowsAt_commit h.1.revision).symm⟩
  | writing | written | marking =>
    exact ⟨h.1.commit, h.2.1.trans (rowsAt_commit h.1.revision).symm, h.2.2⟩

theorem Marked.commit (h : Marked v stamp) :
    Marked { v with history := v.history ++ [rows] } stamp := by
  refine ⟨h.1.commit, fun hcurrent => ?_⟩
  rw [rowsAt_commit h.1.revision]
  exact h.2 hcurrent

theorem Valid.increment (h : Valid v stamp) :
    Valid { v with generation := v.generation + 1 } stamp ∧
      stamp.generation ≠ v.generation + 1 :=
  ⟨⟨h.generation.trans (Nat.le_succ _), h.revision⟩, (Nat.lt_succ_of_le h.generation).ne⟩

theorem Good.increment (h : Good v loader) :
    Good { v with generation := v.generation + 1 } loader := by
  cases loader with
  | started | answered | ended => exact h
  | stamping => exact ⟨h.1, h.2.trans (Nat.le_succ _)⟩
  | stamped => exact ⟨h.1, h.2.increment.1⟩
  | reading =>
    obtain ⟨hnodup, hsubset, hvalid, _⟩ := h
    exact ⟨hnodup, hsubset, hvalid.increment.1, fun hold => absurd hold hvalid.increment.2⟩
  | missed => exact (Valid.increment h).1
  | loaded | claiming | listing | deleting => exact ⟨h.1.increment.1, h.2⟩
  | writing | written | marking =>
    exact ⟨h.1.increment.1, h.2.1, fun hold => absurd hold h.1.increment.2⟩

theorem Good.of_not_uses {cached : List Row} (h : Good v loader)
    (huses : loader.uses v.generation = false) : Good { v with cached } loader := by
  have hold {stamp : Stamp} (h : decide (stamp.generation = v.generation) = false) :
      stamp.generation ≠ v.generation := of_decide_eq_false h
  cases loader with
  | started | stamping | answered | ended => exact h
  | stamped => exact ⟨h.1, h.2.1, h.2.2⟩
  | missed => exact ⟨h.1, h.2⟩
  | loaded | claiming | listing | deleting => exact ⟨⟨h.1.1, h.1.2⟩, h.2⟩
  | reading =>
    obtain ⟨hnodup, hsubset, hvalid, _⟩ := h
    exact ⟨hnodup, hsubset, ⟨hvalid.1, hvalid.2⟩, fun heq => absurd heq (hold huses)⟩
  | writing | written | marking =>
    exact ⟨⟨h.1.1, h.1.2⟩, h.2.1, fun heq => absurd heq (hold huses)⟩

end Frame

section Steps

variable {st st' : State} {loader : Loader} {move : Move} {i : Nat}

theorem Inv.putLoader (h : Inv st) (hgood : Good st.view loader) : Inv (st.putLoader i loader) where
  ids := h.ids
  ready := h.ready
  loaders := Slots.forall_set h.loaders hgood

theorem not_uses_of_any (h : (!st.loaders.any (Loader.uses st.generation))) :
    ∀ loader ∈ st.loaders, loader.uses st.generation = false := by
  intro loader hloader
  have hnone := any_eq_false.mp (by simpa using h) loader hloader
  exact eq_false_of_ne_true hnone

theorem cached_delete {fields : List String} (hclears : st.clears fields) :
    (st.delete fields).cached = [] := by
  have hall := (and_eq_true _ _ ▸ hclears).1
  refine filter_eq_nil_iff.mpr fun row hrow => ?_
  simpa using all_eq_true.mp hall row hrow

theorem Inv.delete (h : Inv st) {fields : List String} (hclears : st.clears fields) :
    Inv (st.delete fields) where
  ids := h.ids
  ready _ hready := by cases hready
  loaders loader hloader :=
    (h.loaders loader hloader).of_not_uses
      (not_uses_of_any (and_eq_true _ _ ▸ hclears).2 loader hloader)

theorem Inv.read (h : Inv st) (hloader : st.loaders[i]? = some loader)
    (hstep : st.read i loader move = some st') : Inv st' := by
  have hgood := h.loaders loader (mem_of_getElem? hloader)
  revert hstep
  fun_cases State.read st i loader move
  all_goals rintro ⟨⟩
  next => exact h.putLoader ⟨hgood, Nat.le_refl _⟩
  next hrevision => exact h.putLoader ⟨hgood.1, hgood.2, hrevision⟩
  next stamp hmark =>
    refine h.putLoader ⟨hgood.1, fun _ h => h, hgood.2, fun hcurrent => ⟨?_, ?_⟩⟩
    · exact (h.ready stamp hmark.2).2 hcurrent
    · rw [filter_eq_nil_iff.mpr]
      intro row hrow
      simpa using (mem_filter.mp hrow).2
  next => exact h.putLoader hgood.2
  next fields stamp todo rows field hfield =>
    obtain ⟨hnodup, hsubset, hvalid, hread⟩ := hgood
    refine h.putLoader ⟨hnodup.erase _, fun _ h => hsubset (mem_of_mem_erase h),
      hvalid, fun hcurrent => ⟨(hread hcurrent).cached, ?_⟩⟩
    have hfetched : (st.hgetAll field).Perm
        (((st.rowsAt stamp.revision).filter fun row => row.field ∈ fields).filter
          fun row => row.field = field) := by
      refine ((hread hcurrent).cached.filter _).trans (.of_eq ?_)
      rw [List.filter_filter]
      refine List.filter_congr fun row _ => ?_
      by_cases hrow : row.field = field
      · simp [hrow, hsubset hfield]
      · simp [hrow]
    exact ((hread hcurrent).rows.append hfetched).trans (perm_readField _ hnodup hfield)
  next htodo hcurrent =>
    refine h.putLoader ⟨hgood.2.2.1.revision, ?_⟩
    have hrows := (hgood.2.2.2 hcurrent.symm).rows
    rw [not_not.mp htodo] at hrows
    simpa using hrows
  next => exact h.putLoader hgood.2.2.1

/-- A row is written by a fill that no other fill and no read is in the way of. -/
theorem Inv.writeRow (h : Inv st) {stamp : Stamp} {todo : List Row} {row : Row}
    (hloader : st.loaders[i]? = some (.writing stamp rows todo)) (hrow : row ∈ todo)
    (hsound : Sound st (.loader i (.writeRow row))) :
    Inv ((st.hset row).putLoader i (.writing stamp rows (todo.erase row))) := by
  obtain ⟨hothers, hready⟩ := (and_eq_true _ _ ▸ hsound :)
  obtain ⟨hvalid, hrows, hcached⟩ := h.loaders _ (mem_of_getElem? hloader)
  constructor
  · exact h.ids
  · intro mark hmark
    obtain ⟨hmarked, _⟩ := h.ready mark hmark
    have hold : mark.generation ≠ st.generation := by
      rw [show st.ready = some mark from hmark] at hready
      exact of_decide_eq_true hready
    exact ⟨⟨hmarked.1, hmarked.2⟩, fun hcurrent => absurd hcurrent hold⟩
  · intro loader hmem
    obtain ⟨j, hj⟩ := getElem?_of_mem hmem
    rcases Slots.getElem?_set_cases hj with ⟨_, rfl⟩ | ⟨hne, hother⟩
    · refine ⟨⟨hvalid.1, hvalid.2⟩, hrows, fun hcurrent => ?_⟩
      exact hset_perm (hrows ▸ h.nodup_rowsAt _) (hcached hcurrent) hrow
    · apply (h.loaders loader (mem_of_getElem? hother)).of_not_uses
      have hnone : (st.loaders.eraseIdx i).any (Loader.uses st.generation) = false := by
        simpa using hothers
      exact eq_false_of_ne_true (any_eq_false.mp hnone loader
        (mem_eraseIdx_iff_getElem?.mpr ⟨j, hne, hother⟩))

theorem Inv.fill (h : Inv st) (hloader : st.loaders[i]? = some loader)
    (hsound : Sound st (.loader i move))
    (hstep : st.fill i loader move = some st') : Inv st' := by
  have hgood := h.loaders loader (mem_of_getElem? hloader)
  revert hstep
  fun_cases State.fill st i loader move
  all_goals rintro ⟨⟩
  next =>
    simp only [Sound, hloader, decide_eq_true_eq] at hsound
    exact h.putLoader ⟨hgood, congrArg st.rowsAt hsound⟩
  next =>
    split
    · exact h.putLoader hgood
    · exact h.putLoader trivial
  next => exact h.putLoader trivial
  next => exact Inv.putLoader { h with } hgood
  next => exact h.putLoader hgood
  next fields =>
    simp only [Sound, hloader] at hsound
    refine (h.delete hsound).putLoader ⟨⟨hgood.1.1, hgood.1.2⟩, hgood.2, fun _ => ?_⟩
    rw [show (st.delete fields).view.cached = [] from cached_delete hsound, nil_append]
  next hrow => exact h.writeRow hloader hrow hsound
  next htodo =>
    refine Inv.putLoader { h with }
      ⟨⟨hgood.1.1, hgood.1.2⟩, hgood.2.1, fun hcurrent => ?_⟩
    have hcached := hgood.2.2 hcurrent
    rw [not_not.mp htodo, append_nil] at hcached
    exact hcached
  next =>
    split
    · exact h.putLoader hgood
    · exact h.putLoader trivial
  next =>
    refine Inv.putLoader ⟨h.ids, fun mark hmark => ?_, h.loaders⟩ trivial
    cases hmark
    refine ⟨⟨hgood.1.1, hgood.1.2⟩, fun hcurrent => ?_⟩
    exact (hgood.2.2 hcurrent).trans (.of_eq hgood.2.1)

theorem inv_step {l : Label} (h : Inv st) (hsound : Sound st l)
    (hstep : step st l = some st') : Inv st' := by
  revert hstep
  fun_cases step st l
  case case11 i move =>
    intro hstep
    obtain ⟨loader, hloader, hstep⟩ := bind_eq_some_iff.mp hstep
    unfold State.move at hstep
    split at hstep
    · exact h.read hloader hstep
    · exact h.fill hloader hsound hstep
  all_goals rintro ⟨⟩
  next hnodup =>
    exact ⟨Slots.forall_push h.ids hnodup, fun stamp hmark => (h.ready stamp hmark).commit,
      fun loader hloader => (h.loaders loader hloader).commit⟩
  next =>
    refine ⟨h.ids, fun stamp hmark => ?_, fun loader hloader => ?_⟩
    · have hvalid := (h.ready stamp hmark).1.increment
      exact ⟨hvalid.1, fun hcurrent => absurd hcurrent hvalid.2⟩
    · exact (h.loaders loader hloader).increment
  next => exact { h with }
  next hdrop =>
    simp only [Sound, hdrop] at hsound
    have hinv := h.delete hsound
    exact { hinv with }
  next hnodup => exact ⟨h.ids, h.ready, Slots.forall_push h.loaders hnodup⟩
  next => exact ⟨h.ids, fun _ hready => (nomatch hready), h.loaders⟩
  all_goals exact { h with }

end Steps

/-- **Answers from the cache are exact** in every run whose rows are read at their stamp's
revision, and whose deletes and writes meet neither another fill nor a read. -/
theorem answers_exact_of_reaches {st : State}
    (hrun : Run.Reaches step (fun st l => Sound st l = true) State.start st) : Promise st := by
  have hinv : Inv st := hrun.invariant (P := Inv)
    (fun _ _ _ h hsound hstep => inv_step h hsound hstep) inv_start
  intro loader hloader answer hanswer
  have hgood := hinv.loaders loader hloader
  cases loader with
  | answered _ =>
    cases hanswer
    exact hgood.2
  | _ => cases hanswer

def row (field key : String) : Row := ⟨field, key, 0, ""⟩

def stampMoves (i revision : Nat) : List Label :=
  [.loader i .readGeneration, .loader i (.readRevision revision), .loader i .readMark]

def fillMoves (i revision : Nat) : List Label :=
  stampMoves i revision ++ [Label.loader i (.readRows revision), .loader i .checkGeneration,
    .loader i .claim, .loader i .readList, .loader i .delete]

def writeMoves (i : Nat) (rows : List Row) : List Label := rows.map (.loader i <| .writeRow ·)

def markMoves (i : Nat) : List Label :=
  [.loader i .writeList, .loader i .checkGeneration, .loader i .mark]

/-- A read of a marked copy. -/
def readMoves (i revision : Nat) (fields : List String) : List Label :=
  Label.load fields :: stampMoves i revision ++ fields.map (Label.loader i <| .readField ·) ++
    [Label.loader i .checkGeneration]

def dropMoves (i : Nat) : List Label := [.increment i, .dropList i, .dropDelete i]

/-- One loader fills the cache after a write, and the next is answered from it. -/
theorem answers_exact_after_fill :
    ∃ st, Run.Reaches step (fun st l => Sound st l = true) State.start st ∧
      (st.loaders[1]? = some (Loader.answered ⟨["initiatives", "teams"], ⟨1, 1⟩,
        [row "initiatives" "a", row "teams" "b"]⟩)) ∧ Promise st := by
  refine Run.exists_reaches_and
    ([Label.commit [row "teams" "b", row "initiatives" "a"]] ++ dropMoves 0 ++
      [Label.load ["users"]] ++
      fillMoves 0 1 ++ writeMoves 0 [row "teams" "b", row "initiatives" "a"] ++ markMoves 0 ++
      readMoves 1 1 ["initiatives", "teams"]) _ (by decide +kernel) fun _ hrun _ => ?_
  exact answers_exact_of_reaches hrun

/-- A delete after a commit takes a field out of the copy while a fill goes on; two fills at one
generation leave a row of the older revision; and where the list of fields has expired, a row
stays that a later revision does not have. -/
theorem answers_mixed :
    (∃ st, Run.Reaches step Run.Unrestricted State.start st ∧
      (¬Promise st ∧ st.rowsAt 1 = [row "teams" "a", row "labels" "b"] ∧
        st.loaders[1]? =
          some (Loader.answered ⟨["teams", "labels"], ⟨1, 1⟩, [row "labels" "b"]⟩))) ∧
    (∃ st, Run.Reaches step Run.Unrestricted State.start st ∧
      (¬Promise st ∧ st.rowsAt 2 = [row "teams" "a"] ∧
        st.loaders[2]? = some (Loader.answered ⟨["teams"], ⟨0, 2⟩,
          [row "teams" "a", row "teams" "b"]⟩))) ∧
    ∃ st, Run.Reaches step Run.Unrestricted State.start st ∧
      (¬Promise st ∧ st.rowsAt 2 = [row "initiatives" "a"] ∧
        st.loaders[2]? = some (Loader.answered ⟨["initiatives"], ⟨1, 2⟩,
          [row "initiatives" "a", row "initiatives" "b"]⟩)) := by
  refine ⟨?_, ?_, ?_⟩
  · exact Run.exists_reaches
      ([Label.commit [row "teams" "a", row "labels" "b"], .increment 0, .load ["teams"]] ++
        fillMoves 0 1 ++ writeMoves 0 [row "teams" "a"] ++ [Label.dropList 0, .dropDelete 0] ++
        writeMoves 0 [row "labels" "b"] ++ markMoves 0 ++ readMoves 1 1 ["teams", "labels"])
      _ (by decide +kernel)
  · exact Run.exists_reaches
      ([Label.commit [row "teams" "a", row "teams" "b"], .load ["teams"]] ++ fillMoves 0 1 ++
        [Label.commit [row "teams" "a"], .load ["teams"]] ++ fillMoves 1 2 ++
        writeMoves 0 [row "teams" "a", row "teams" "b"] ++ writeMoves 1 [row "teams" "a"] ++
        markMoves 1 ++ readMoves 2 2 ["teams"])
      _ (by decide +kernel)
  · exact Run.exists_reaches
      ([Label.commit [row "initiatives" "a", row "initiatives" "b"], .load ["teams"]] ++
        fillMoves 0 1 ++ writeMoves 0 [row "initiatives" "a", row "initiatives" "b"] ++
        markMoves 0 ++ [Label.expireList, .expireMark, .commit [row "initiatives" "a"]] ++
        dropMoves 1 ++ [Label.load ["teams"]] ++ fillMoves 1 2 ++
        writeMoves 1 [row "initiatives" "a"] ++ markMoves 1 ++ readMoves 2 2 ["initiatives"])
      _ (by decide +kernel)

end Flow.Ports.MetadataCache
