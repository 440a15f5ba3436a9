import Flow.Ports.CodingOperations

/-!
# Leases and wake-ups of a coding session

The row of a session says when a reconciler looks at it next.  A pass leases the row,
which parks that time at a sentinel, reads the session, commits what it decided and
releases the row with the next time; a runtime call that wants the session looked at
sooner writes the time itself.  A lease that has expired is claimed by the next pass
while its holder may still be running.

A step is one SQL statement of `LeaseCodingSessions`, `ReleaseCodingSession` or
`UpdateCodingSession`, and the statements of any number of calls interleave.  A
release may come from anyone and with any time, so the results do not depend on what
a pass decides.  Other sessions have rows of their own.
-/

namespace Flow.Ports.Leases

open Flow.Verified.Run
open Flow.Ports.Coding (Session Time Duration milliseconds trimSpace)

/-- `1 << 62`: parks the next time of a leased session. -/
def codingLeaseSentinel : Int := 4611686018427387904

/-- The column of an instant; the zero time is 0. -/
def millis (time : Time) : Int := time / 1000000

/-- The instant of a column. -/
def codingTime (value : Int) : Time := if value ≤ 0 then 0 else value * 1000000

/-- What a clock shows: an instant after the epoch, and before the sentinel in
the year 146 million. -/
structure Clock where
  time : Time
  pos : 0 < time
  lt_sentinel : millis time < codingLeaseSentinel
deriving DecidableEq

structure Row where
  data : Session
  version : Nat
  leaseOwner : String
  leaseUntil : Int
  nextReconcileAt : Int
deriving DecidableEq

/-- The session of a row: a parked time is not shown. -/
def scanCodingSession (row : Row) : Session :=
  { row.data with
    version := row.version
    nextReconcileAt :=
      if row.nextReconcileAt ≠ codingLeaseSentinel then codingTime row.nextReconcileAt else 0 }

def createCodingSession (session : Session) (now : Clock) : Row :=
  { data := { session with version := 1, nextReconcileAt := 0 }
    version := 1
    leaseOwner := ""
    leaseUntil := 0
    nextReconcileAt := millis now.time }

def validOwner (owner : String) : Bool :=
  trimSpace owner ≠ "" ∧ owner.utf8ByteSize ≤ 191

/-- `LeaseCodingSessions` selects the row: it is due, or its lease has expired. -/
def Row.due (row : Row) (now : Int) : Bool :=
  row.data.phase ≠ .done ∧ row.leaseUntil < now ∧
    (row.nextReconcileAt ≤ now ∨ 0 < row.leaseUntil)

/-- `LeaseCodingSessions` claims a row it has selected, without a second look at whether it is
due. -/
def Row.claim (row : Row) (owner : String) (now expires : Int) : Option Row :=
  if row.data.phase ≠ .done ∧ row.leaseUntil < now then
    some { row with
      leaseOwner := owner, leaseUntil := expires, nextReconcileAt := codingLeaseSentinel }
  else none

/-- `ReleaseCodingSession`; `none` is `ErrCodingLeaseLost`. -/
def Row.release (row : Row) (owner : String) (next : Clock) : Option Row :=
  if row.leaseOwner = owner then
    some { row with
      leaseOwner := ""
      leaseUntil := 0
      nextReconcileAt :=
        if row.nextReconcileAt < millis next.time then row.nextReconcileAt
        else millis next.time }
  else none

/-- Whether a mutated session serializes to the stored document; the next time
is not part of it. -/
def sameCodingSessionDocument (before mutated : Session) : Bool :=
  { mutated with
    version := before.version, nextReconcileAt := before.nextReconcileAt } = before

/-- Whether an update writes the next time. -/
def schedules (before mutated : Session) : Bool :=
  mutated.nextReconcileAt ≠ before.nextReconcileAt ∧ mutated.nextReconcileAt ≠ 0

/-- The end of an attempt of `UpdateCodingSession` that read `before`: `none` when there is
nothing to write, or the row has changed since. -/
def Row.update (row : Row) (before mutated : Session) : Option Row :=
  let mutated := { mutated with id := before.id, workspaceKey := before.workspaceKey }
  if sameCodingSessionDocument before mutated ∧ ¬ schedules before mutated then none
  else if row.version = before.version then
    some { row with
      data := { mutated with version := before.version + 1, nextReconcileAt := 0 }
      version := before.version + 1
      nextReconcileAt :=
        if schedules before mutated then millis mutated.nextReconcileAt
        else row.nextReconcileAt }
  else none

/-- A call of `LeaseCodingSessions` that has selected the row. -/
structure Candidate where
  owner : String
  now : Int
  leaseUntil : Int
  now_le : now ≤ leaseUntil
deriving DecidableEq

/-- A session that was read, and how many leases had been claimed by then. -/
structure Reading where
  session : Session
  leases : Nat
deriving DecidableEq

/-- A session in the hands of a caller: of the holder of a lease, or of anyone
else. -/
structure Copy where
  reading : Reading
  lease : Option Nat
deriving DecidableEq

/-- An attempt of `UpdateCodingSession` that has read the session. `schedule` is the next time
it will write unless it sets one: the one it read, or, for a commit, that of the session it was
decided on. -/
structure Update where
  reading : Reading
  schedule : Time
deriving DecidableEq

/-! ## Bookkeeping -/

structure Wake where
  lease : Option Nat
  version : Nat
  time : Time
  reading : Reading
deriving DecidableEq

/-- The wake-up is for another time than the one its update read, or it read the
session under the lease it committed under. -/
def Wake.Scheduled (wake : Wake) : Prop :=
  wake.time ≠ wake.reading.session.nextReconcileAt ∨ wake.lease = some wake.reading.leases

instance (wake : Wake) : Decidable wake.Scheduled := inferInstanceAs (Decidable (_ ∨ _))

/-- A release, of a lease if there was one, and the next time it left. -/
structure Release where
  lease : Option Nat
  nextReconcileAt : Int
deriving DecidableEq

structure State where
  row : Row
  candidates : List Candidate := []
  /-- Calls of `LeaseCodingSessions` that have claimed the row but not read it. -/
  claims : List Nat := []
  copies : List Copy := []
  updates : List Update := []
  /-- How many leases have been claimed. -/
  leases : Nat := 0
  wakes : List Wake := []
  releases : List Release := []
deriving DecidableEq

def State.created (session : Session) (now : Clock) : State :=
  { row := createCodingSession session now }

def State.lease (s : State) : Option Nat :=
  if s.row.leaseUntil = 0 then none else some s.leases

def State.reading (s : State) : Reading := ⟨scanCodingSession s.row, s.leases⟩

inductive Label where
  | select (owner : String) (now : Clock) (lease : Duration)
  | claim (i : Nat)
  | fetch (i : Nat)
  /-- `CodingSession`, by anyone. -/
  | read
  | load
  /-- The update of `commit` does, for a decision on the given copy. -/
  | commit (copy : Nat)
  /-- An update writes the document, and perhaps a wake-up. -/
  | store (i : Nat) (document : Session) (wake : Option Clock)
  | release (owner : String) (next : Clock)
deriving DecidableEq

theorem le_add_milliseconds {lease : Duration} (now : Int) (h : 0 < lease) :
    now ≤ now + milliseconds lease :=
  Int.le_add_of_nonneg_right (Int.tdiv_nonneg (Int.le_of_lt h) (by decide))

def State.select (s : State) (owner : String) (now : Clock) (lease : Duration) : Option State :=
  if h : 0 < lease then
    if validOwner owner ∧ s.row.due (millis now.time) then
      some { s with
        candidates := s.candidates ++ [⟨owner, _, _, le_add_milliseconds (millis now.time) h⟩] }
    else none
  else none

def State.claim (s : State) (i : Nat) (call : Candidate) : State :=
  let s := { s with candidates := s.candidates.eraseIdx i }
  match s.row.claim call.owner call.now call.leaseUntil with
  | none => s
  | some row =>
    { s with row, leases := s.leases + 1, claims := s.claims ++ [s.leases + 1] }

def Update.mutated (call : Update) (document : Session) (wake : Option Clock) : Session :=
  { document with
    nextReconcileAt := match wake with
      | some wake => wake.time
      | none => call.schedule }

def State.store (s : State) (i : Nat) (call : Update) (document : Session)
    (wake : Option Clock) : State :=
  let s := { s with updates := s.updates.eraseIdx i }
  match s.row.update call.reading.session (call.mutated document wake) with
  | none => s
  | some row =>
    { s with
      row
      wakes := match wake with
        | some wake => s.wakes ++ [⟨s.lease, row.version, wake.time, call.reading⟩]
        | none => s.wakes }

def State.step (s : State) : Label → Option State
  | .select owner now lease => s.select owner now lease
  | .claim i => (s.candidates[i]?).map (s.claim i)
  | .fetch i => (s.claims[i]?).map fun lease =>
    { s with
      claims := s.claims.eraseIdx i
      copies := s.copies ++ [⟨s.reading, some lease⟩] }
  | .read => some { s with copies := s.copies ++ [⟨s.reading, none⟩] }
  | .load => some { s with
      updates := s.updates ++ [⟨s.reading, s.reading.session.nextReconcileAt⟩] }
  | .commit i => (s.copies[i]?).bind fun copy =>
    if copy.reading.session.version = s.row.version then
      some { s with
        updates := s.updates ++ [⟨s.reading, copy.reading.session.nextReconcileAt⟩] }
    else none
  | .store i document wake => (s.updates[i]?).map fun call => s.store i call document wake
  | .release owner next => (s.row.release owner next).map fun row =>
    { s with row, releases := s.releases ++ [⟨s.lease, row.nextReconcileAt⟩] }

/-! ## The promise -/

def State.Stands (s : State) (wake : Wake) : Prop :=
  ∀ later ∈ s.wakes, later.lease = wake.lease → wake.version < later.version →
    later.time ≤ wake.time

instance (s : State) (wake : Wake) : Decidable (s.Stands wake) :=
  inferInstanceAs (Decidable (∀ later ∈ s.wakes, _))

/-- What the leases promise about wake-ups. -/
structure State.WakesKept (s : State) : Prop where
  /-- A session that is not leased is not parked. -/
  parked : s.row.data.phase ≠ .done → s.row.leaseUntil = 0 →
    s.row.nextReconcileAt ≠ codingLeaseSentinel
  /-- The release of a lease leaves a next time no later than a wake-up under it,
  unless a wake-up for a later time followed. -/
  released : ∀ release ∈ s.releases, ∀ wake ∈ s.wakes, ∀ lease,
    release.lease = some lease → wake.lease = some lease → wake.Scheduled → s.Stands wake →
    release.nextReconcileAt ≤ millis wake.time
  /-- Whoever takes a lease over reads the session after the wake-ups under it. -/
  taken : ∀ wake ∈ s.wakes, ∀ copy ∈ s.copies, ∀ lease holder,
    wake.lease = some lease → copy.lease = some holder → lease < holder →
    wake.version ≤ copy.reading.session.version

end Flow.Ports.Leases
