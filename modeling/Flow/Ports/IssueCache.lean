import Flow.Verified.Run
import Flow.Verified.Slots

/-!
# Cached issue records

The record of an issue is kept in Redis under every key that it was read by: its id, its
identifier, and any other text that led to it, such as an identifier from before a move.
A read (`IssueRecord`; `AuthorizedIssueRecord` looks the id up first) gets the copy under
its key and compares the copy's version with the stored one.  If they differ or there is
no copy, it reads the row and sets the keys one after the other.

A write commits a row and then calls `cacheDropIssue`, which looks for a copy under its
key, then under that key in upper case, and deletes the key together with the id and the
identifier that the copy names.

The contents of an issue are the number of writes it has.
-/

namespace Flow.Ports.IssueCache

open Flow.Verified

structure Issue where
  id : String
  identifier : String
  version : Nat
  write : Nat
deriving DecidableEq, Repr

def Issue.normalized (issue : Issue) : Nat := if issue.version = 0 then 1 else issue.version

def cacheKeys (key : String) (issue : Issue) : List String :=
  ([key, issue.id, issue.identifier].filter (· ≠ "")).eraseDups

/-- The keys that `cacheDropIssue` deletes, with the copy that it found. -/
def dropKeys (key : String) : Option Issue → List String
  | none => [key]
  | some copy => key :: [copy.id, copy.identifier].filter (· ≠ "")

/-- `IssueRecord`, by what it does next; `since` is the last write whose drop was
complete when the read began. -/
inductive Reader where
  | started (since : Nat) (key : String)
  /-- It has a copy and reads the stored version. -/
  | found (since : Nat) (key : String) (copy : Issue)
  | missed (since : Nat) (key : String)
  | storing (since : Nat) (row : Issue) (keys : List String)
  | returned (since : Nat) (issue : Issue)
  | ended
deriving DecidableEq, Repr

/-- `cacheDropIssue` after a write, by what it does next. -/
inductive Drop where
  | committed (row : Issue) (key : String)
  /-- There is no copy under the key. -/
  | retrying (row : Issue) (key : String)
  /-- It deletes its key and those of the copy that it found. -/
  | deleting (row : Issue) (key : String) (found : Option Issue)
  | ended
deriving DecidableEq, Repr

structure State where
  stored : Issue
  cached : List (String × Issue)
  readers : List Reader
  drops : List Drop
  /-- The newest row whose drop is complete. -/
  dropped : Issue
deriving DecidableEq, Repr

def State.start (issue : Issue) : State where
  stored := issue
  cached := []
  readers := []
  drops := []
  dropped := issue

/-! ## Commands -/

def State.get (st : State) (key : String) : Option Issue :=
  if key = "" then none else (st.cached.find? fun entry => entry.1 = key).map Prod.snd

def State.set (st : State) (key : String) (issue : Issue) : State :=
  { st with cached := (key, issue) :: st.cached.filter fun entry => entry.1 ≠ key }

def State.del (st : State) (keys : List String) : State :=
  { st with cached := st.cached.filter fun entry => entry.1 ∉ keys }

def State.putReader (st : State) (i : Nat) (reader : Reader) : State :=
  { st with readers := st.readers.set i reader }

def State.putDrop (st : State) (i : Nat) (drop : Drop) : State :=
  { st with drops := st.drops.set i drop }

def State.complete (st : State) (row : Issue) : State :=
  if st.dropped.write < row.write then { st with dropped := row } else st

inductive Label where
  /-- A write is committed; `key` is what its drop is called with. -/
  | commit (identifier : String) (version : Nat) (key : String)
  | drop (i : Nat)
  | read (key : String)
  | reader (i : Nat)
  /-- The query of a read gives no row: the key leads nowhere or access is refused. -/
  | refuse (i : Nat)
  | expire (key : String)
deriving DecidableEq, Repr

def State.readerStep (st : State) (i : Nat) : Reader → Option State
  | .started since key =>
    some (st.putReader i ((st.get key).elim (.missed since key) (.found since key)))
  | .found since key copy =>
    some (st.putReader i
      (if copy.normalized = st.stored.version then .returned since copy
        else .missed since key))
  | .missed since key =>
    some (st.putReader i (.storing since st.stored (cacheKeys key st.stored)))
  | .storing since row (key :: keys) =>
    some ((st.set key row).putReader i (.storing since row keys))
  | .storing since row [] => some (st.putReader i (.returned since row))
  | .returned _ _ | .ended => none

def State.refuse (st : State) (i : Nat) : Reader → Option State
  | .found since key _ => some (st.putReader i (.missed since key))
  | .missed _ _ => some (st.putReader i .ended)
  | _ => none

def State.dropStep (upper : String → String) (st : State) (i : Nat) : Drop → Option State
  | .committed row key =>
    some (st.putDrop i
      (match st.get key with
        | none => .retrying row key
        | some copy => .deleting row key (some copy)))
  | .retrying row key => some (st.putDrop i (.deleting row key (st.get (upper key))))
  | .deleting row key found =>
    some (((st.del (dropKeys key found)).complete row).putDrop i .ended)
  | .ended => none

def step (upper : String → String) (st : State) : Label → Option State
  | .commit identifier version key =>
    -- a drop without a key would do nothing
    if st.stored.version ≤ version ∧ key ≠ "" then
      let row := { st.stored with identifier, version, write := st.stored.write + 1 }
      some { st with stored := row, drops := st.drops ++ [.committed row key] }
    else none
  | .drop i => st.drops[i]?.bind (st.dropStep upper i)
  | .read key => some { st with readers := st.readers ++ [.started st.dropped.write key] }
  | .reader i => st.readers[i]?.bind (st.readerStep i)
  | .refuse i => st.readers[i]?.bind (st.refuse i)
  | .expire key => some (st.del [key])

/-! ## What a drop promises -/

def Reader.result : Reader → Option (Nat × Issue)
  | .returned since issue => some (since, issue)
  | _ => none

/-- A read returns the last write whose drop was complete when it began, or a later one. -/
def Promise (st : State) : Prop :=
  ∀ reader ∈ st.readers, ∀ result ∈ reader.result, result.1 ≤ result.2.write

instance (st : State) : Decidable (Promise st) :=
  inferInstanceAs
    (Decidable (∀ reader ∈ st.readers, ∀ result ∈ reader.result, result.1 ≤ result.2.write))

/-- A copy from before a write whose version the write has not left behind. -/
def Issue.passesFor (copy row : Issue) : Bool :=
  copy.write < row.write && row.version ≤ copy.normalized

def Reader.storing? : Reader → Option Issue
  | .storing _ row _ => some row
  | _ => none

/-- Where a drop called with `key` may leave no copy that passes for the row: under the key
itself, and under the id and the identifier of the row if it found a copy that has them. -/
def Reached (row : Issue) (key : String) (found : Option Issue) (name : String) : Bool :=
  name = key ||
    (found.any fun copy => copy.id = row.id && copy.identifier = row.identifier) &&
      (name = row.id || name = row.identifier) && name ≠ ""

/-- When a drop deletes, the copies from before its write that can still pass for the stored
record are in its reach, and no read is about to set one. Where every write raises the version
there are none. -/
def Sound (st : State) : Label → Bool
  | .drop i =>
    match st.drops[i]? with
    | some (.deleting row key found) =>
      (st.cached.all fun entry => entry.2.passesFor row → Reached row key found entry.1) &&
        st.readers.all fun reader => reader.storing?.all fun copy => !copy.passesFor row
    | _ => true
  | _ => true

end Flow.Ports.IssueCache
