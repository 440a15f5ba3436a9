import Flow.Verified.Run
import Mathlib.Data.List.Perm.Basic

/-!
# The shared metadata cache

The metadata records of a workspace are kept in Redis as well: one hash for each field,
the list of the fields that have a hash, and a mark that names the stamp of the copy, a
generation and a revision.  The hashes do not expire; the list and the mark do.

A commit raises the revision.  The writer then raises the generation, reads the list of
fields and deletes the mark, the list and those hashes (`dropMetadataCache`), each by a
command of its own.  A reader (`loadMetadataRecordRows`) takes a stamp, compares it with
the mark, reads the hashes one by one and looks at the generation once more.  Where this
does not give it the rows, it reads them from the database and fills the cache: after a
look at the generation it claims the stamp, deletes the copy, writes row after row and
then the list, looks at the generation and sets the mark.

Any number of writers and readers take these steps in any order, and may stop after any.
-/

namespace Flow.Ports.MetadataCache

open Flow.Verified

structure Row where
  field : String
  key : String
  order : Int
  data : String
deriving DecidableEq, Repr

/-- The primary key of a row; in Redis, its hash and its key there. -/
def Row.id (row : Row) : String × String := (row.field, row.key)

structure Stamp where
  generation : Nat
  revision : Nat
deriving DecidableEq, Repr

/-- The fields that `deleteMetadataCache` deletes when there is no list. -/
def defaultFields : List String :=
  ["teams", "teamSettings", "cycleSettings", "states", "labels", "cycles", "projects", "users"]

/-- What a reader got from the cache for its stamp. -/
structure Answer where
  fields : List String
  stamp : Stamp
  rows : List Row
deriving DecidableEq, Repr

/-- `loadMetadataRecordRows`, by what it does next. -/
inductive Loader where
  | started (fields : List String)
  /-- It has the generation and reads the revision. -/
  | stamping (fields : List String) (generation : Nat)
  /-- It compares the stamp with the mark. -/
  | stamped (fields : List String) (stamp : Stamp)
  /-- It reads the hashes of the fields in `todo`. -/
  | reading (fields : List String) (stamp : Stamp) (todo : List String) (rows : List Row)
  | answered (answer : Answer)
  /-- It reads the rows from the database. -/
  | missed (stamp : Stamp)
  /-- `fillMetadataRecordsCacheAt` looks at the generation. -/
  | loaded (stamp : Stamp) (rows : List Row)
  | claiming (stamp : Stamp) (rows : List Row)
  /-- It reads the list of the fields to delete. -/
  | listing (stamp : Stamp) (rows : List Row)
  | deleting (stamp : Stamp) (rows : List Row) (fields : List String)
  /-- It writes the rows in `todo`, and then the list. -/
  | writing (stamp : Stamp) (rows todo : List Row)
  /-- It looks at the generation again. -/
  | written (stamp : Stamp) (rows : List Row)
  | marking (stamp : Stamp) (rows : List Row)
  | ended
deriving DecidableEq, Repr

/-- `dropMetadataCache`, by what it does next. -/
inductive Drop where
  | committed
  | listing
  | deleting (fields : List String)
  | ended
deriving DecidableEq, Repr

structure State where
  history : List (List Row)
  generation : Nat
  cached : List Row
  list : Option (List String)
  ready : Option Stamp
  claims : List Stamp
  loaders : List Loader
  drops : List Drop
deriving DecidableEq, Repr

def State.start : State where
  history := [[]]
  generation := 0
  cached := []
  list := none
  ready := none
  claims := []
  loaders := []
  drops := []

def State.rowsAt (st : State) (revision : Nat) : List Row := st.history[revision]?.getD []

/-! ## Commands -/

/-- The fields that `deleteMetadataCache` deletes. -/
def State.listedFields (st : State) : List String := st.list.getD defaultFields

/-- `CacheDel` of the mark, the list and hashes. -/
def State.delete (st : State) (fields : List String) : State :=
  { st with
    cached := st.cached.filter fun row => row.field ∉ fields
    list := none
    ready := none }

/-- One `HSET` of `CacheHSetMap`. -/
def State.hset (st : State) (row : Row) : State :=
  { st with cached := row :: st.cached.filter fun old => old.id ≠ row.id }

def State.hgetAll (st : State) (field : String) : List Row :=
  st.cached.filter fun row => row.field = field

def State.putLoader (st : State) (i : Nat) (loader : Loader) : State :=
  { st with loaders := st.loaders.set i loader }

def State.putDrop (st : State) (i : Nat) (drop : Drop) : State :=
  { st with drops := st.drops.set i drop }

inductive Move where
  | readGeneration
  /-- The revision in the snapshot of the reader, which may be an old one. -/
  | readRevision (revision : Nat)
  | readMark
  | readField (field : String)
  | checkGeneration
  /-- The rows at the revision that the reader sees now. -/
  | readRows (revision : Nat)
  | claim
  | readList
  | delete
  | writeRow (row : Row)
  | writeList
  | mark
deriving DecidableEq, Repr

inductive Label where
  | commit (rows : List Row)
  | increment (i : Nat)
  | dropList (i : Nat)
  | dropDelete (i : Nat)
  | load (fields : List String)
  | loader (i : Nat) (move : Move)
  | expireMark
  | expireList
  | expireClaim (stamp : Stamp)
deriving DecidableEq, Repr

def State.read (st : State) (i : Nat) : Loader → Move → Option State
  | .started fields, .readGeneration => some (st.putLoader i (.stamping fields st.generation))
  | .stamping fields generation, .readRevision revision =>
    if revision < st.history.length then
      some (st.putLoader i (.stamped fields ⟨generation, revision⟩))
    else none
  | .stamped fields stamp, .readMark =>
    if fields ≠ [] ∧ st.ready = some stamp then
      some (st.putLoader i (.reading fields stamp fields []))
    else some (st.putLoader i (.missed stamp))
  | .reading fields stamp todo rows, .readField field =>
    -- the fields are the keys of a map, read in any order
    if field ∈ todo then
      some (st.putLoader i
        (.reading fields stamp (todo.erase field) (rows ++ st.hgetAll field)))
    else none
  | .reading fields stamp todo rows, .checkGeneration =>
    if todo ≠ [] then none
    else if st.generation = stamp.generation then
      some (st.putLoader i (.answered ⟨fields, stamp, rows⟩))
    else some (st.putLoader i (.missed stamp))
  | _, _ => none

/-- The query of `loadMetadataRecordRows` and the moves of `fillMetadataRecordsCacheAt`. -/
def State.fill (st : State) (i : Nat) : Loader → Move → Option State
  | .missed stamp, .readRows revision =>
    if stamp.revision ≤ revision ∧ revision < st.history.length then
      some (st.putLoader i (.loaded stamp (st.rowsAt revision)))
    else none
  | .loaded stamp rows, .checkGeneration =>
    some (st.putLoader i
      (if st.generation = stamp.generation then .claiming stamp rows else .ended))
  | .claiming stamp rows, .claim =>
    if stamp ∈ st.claims then some (st.putLoader i .ended)
    else some ({ st with claims := stamp :: st.claims }.putLoader i (.listing stamp rows))
  | .listing stamp rows, .readList =>
    some (st.putLoader i (.deleting stamp rows st.listedFields))
  | .deleting stamp rows fields, .delete =>
    some ((st.delete fields).putLoader i (.writing stamp rows rows))
  | .writing stamp rows todo, .writeRow row =>
    if row ∈ todo then
      some ((st.hset row).putLoader i (.writing stamp rows (todo.erase row)))
    else none
  | .writing stamp rows todo, .writeList =>
    if todo ≠ [] then none
    else some
      ({ st with list := some (rows.map Row.field).eraseDups }.putLoader i
        (.written stamp rows))
  | .written stamp rows, .checkGeneration =>
    some (st.putLoader i
      (if st.generation = stamp.generation then .marking stamp rows else .ended))
  | .marking stamp _, .mark => some ({ st with ready := some stamp }.putLoader i .ended)
  | _, _ => none

def Loader.reads : Loader → Bool
  | .started _ | .stamping _ _ | .stamped _ _ | .reading _ _ _ _ => true
  | _ => false

def State.move (st : State) (i : Nat) (loader : Loader) (move : Move) : Option State :=
  if loader.reads then st.read i loader move else st.fill i loader move

def step (st : State) : Label → Option State
  | .commit rows =>
    if (rows.map Row.id).Nodup then
      some { st with history := st.history ++ [rows], drops := st.drops ++ [.committed] }
    else none
  | .increment i =>
    if st.drops[i]? = some .committed then
      some ({ st with generation := st.generation + 1 }.putDrop i .listing)
    else none
  | .dropList i =>
    if st.drops[i]? = some .listing then some (st.putDrop i (.deleting st.listedFields))
    else none
  | .dropDelete i =>
    match st.drops[i]? with
    | some (.deleting fields) => some ((st.delete fields).putDrop i .ended)
    | _ => none
  | .load fields =>
    if fields.Nodup then some { st with loaders := st.loaders ++ [.started fields] } else none
  | .loader i move => st.loaders[i]?.bind fun loader => st.move i loader move
  | .expireMark => some { st with ready := none }
  | .expireList => some { st with list := none }
  | .expireClaim stamp => some { st with claims := st.claims.filter (· ≠ stamp) }

/-! ## What the stamp promises -/

def Loader.answer : Loader → Option Answer
  | .answered answer => some answer
  | _ => none

def Promise (st : State) : Prop :=
  ∀ loader ∈ st.loaders, ∀ answer ∈ loader.answer,
    answer.rows.Perm ((st.rowsAt answer.stamp.revision).filter fun row => row.field ∈ answer.fields)

instance (st : State) : Decidable (Promise st) :=
  inferInstanceAs (Decidable (∀ loader ∈ st.loaders, ∀ answer ∈ loader.answer, List.Perm _ _))

/-- A fill between its delete and its mark, or a read after it has seen the mark, of the
current generation. -/
def Loader.uses (generation : Nat) : Loader → Bool
  | .reading _ stamp _ _ | .writing stamp _ _ | .written stamp _ | .marking stamp _ =>
    stamp.generation = generation
  | _ => false

/-- A delete that leaves no hash behind, and takes none from a fill or a read. -/
def State.clears (st : State) (fields : List String) : Bool :=
  (st.cached.all fun row => row.field ∈ fields) && !st.loaders.any (Loader.uses st.generation)

/-- Rows are read at the revision of the stamp; a delete has every hash; a delete or a write of
a row comes when no other fill and no read of the current generation is between its first and
its last use of the hashes; and no row is written into a marked copy. -/
def Sound (st : State) : Label → Bool
  | .dropDelete i =>
    match st.drops[i]? with
    | some (.deleting fields) => st.clears fields
    | _ => true
  | .loader i (.readRows revision) =>
    match st.loaders[i]? with
    | some (.missed stamp) => revision = stamp.revision
    | _ => true
  | .loader i .delete =>
    match st.loaders[i]? with
    | some (.deleting _ _ fields) => st.clears fields
    | _ => true
  | .loader i (.writeRow _) =>
    !(st.loaders.eraseIdx i).any (Loader.uses st.generation) &&
      st.ready.all fun stamp => stamp.generation ≠ st.generation
  | _ => true

end Flow.Ports.MetadataCache
