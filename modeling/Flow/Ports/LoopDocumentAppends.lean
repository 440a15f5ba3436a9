import Mathlib.Data.List.Infix
import Flow.Ports.CodingOperations
import Flow.Verified.Slots

/-!
# Sections that runs of a loop append to a document

A run of a scheduled loop appends one section per occurrence of its schedule.  Before
it saves the document it claims the occurrence in a table whose primary key admits one
row; a run that finds the row of another run reads what became of that run, and is
refused or takes the row over.  After the save the run settles its row: the section is
there, or the row is deleted.

A step is one statement of one `save_document` call: reading the document that the
call starts from, the `INSERT` of the claim, the `SELECT` after it, the look at the
other run, the conditional `UPDATE` that takes the row over, the tool's own read of
the document, its conditional write, the read after it, the settlement.  The calls of
any number of runs on any number of servers interleave, and a call that pauses or
whose server stops takes no step.  A step that needs the time is given one: the clocks
of the servers need not agree.  The model is of one loop, one occurrence and one
document; a body that does not extend the one the call was checked against is no
append in the source, makes no claim and is an edit here.
-/

namespace Flow.Ports.LoopAppends

open Flow.Verified.Slots (Reply)
open Flow.Ports.Coding (isSpace)

abbrev Text := List Char

def trimSpace (text : Text) : Text :=
  ((text.dropWhile isSpace).reverse.dropWhile isSpace).reverse

/-- The characters whose encoding lies within the first `bytes` bytes. -/
def withinBytes : Nat → Text → Text
  | _, [] => []
  | bytes, ch :: rest =>
    if ch.utf8Size ≤ bytes then ch :: withinBytes (bytes - ch.utf8Size) rest else []

def loopAppendProbeBytes : Nat := 512

/-- How much of an append's text a claim keeps to find it in the document. -/
def loopAppendProbe (text : Text) : Text := withinBytes loopAppendProbeBytes (trimSpace text)

inductive Status where
  | pending
  | appended
deriving DecidableEq, Repr

/-- A row of `loop_document_appends`; its loop, occurrence and document are
fixed. -/
structure LoopDocumentAppend where
  runID : Nat
  textProbe : Text
  versionBefore : Nat
  status : Status
  createdAt : Nat
deriving DecidableEq

/-- 400 days, in seconds. -/
def loopDocumentAppendRetention : Nat := 400 * 24 * 60 * 60

/-- The row is dropped by the next claim of its loop. -/
def LoopDocumentAppend.expired (row : LoopDocumentAppend) (now : Nat) : Bool :=
  row.createdAt + loopDocumentAppendRetention < now

structure Document where
  content : Text
  title : Text
  version : Nat
deriving DecidableEq

def LoopDocumentAppend.shownIn (row : LoopDocumentAppend) (document : Document) : Bool :=
  row.textProbe ≠ [] ∧ row.versionBefore < document.version ∧
    row.textProbe <:+: document.content

structure RunRecord where
  busy : Bool
  heartbeatAt : Option Nat
deriving DecidableEq

/-- The server of the run stopped renewing its lease. -/
def RunRecord.stale (record : RunRecord) (leaseTTL now : Nat) : Bool :=
  record.heartbeatAt.any (fun beat => leaseTTL < now - beat)

/-- How the call names its append: a patch, written only over the version it
was applied to, or the whole body with the text at its end. -/
inductive Form where
  | patch
  | content
deriving DecidableEq, Repr

/-- Where a call stands.  `claimed` says that the call settles a claim. -/
inductive Stage where
  | claiming (attempt : Nat)
  | conflicting (attempt : Nat)
  | judging (attempt : Nat) (existing : LoopDocumentAppend)
  | takingOver (attempt : Nat) (existing : LoopDocumentAppend)
  | executing (claimed : Bool)
  /-- The tool has read the document. -/
  | saving (claimed : Bool) (current : Document)
  | executed (claimed failed : Bool)
  | settling (changed : Bool)
  | over
deriving DecidableEq

def Stage.writes : Stage → Bool
  | .executing _ => true
  | .saving _ _ => true
  | _ => false

structure Call where
  runID : Nat
  form : Form
  text : Text
  document : Document
  stage : Stage
deriving DecidableEq

def Call.claim (call : Call) (now : Nat) : LoopDocumentAppend :=
  { runID := call.runID
    textProbe := loopAppendProbe call.text
    versionBefore := call.document.version
    status := .pending
    createdAt := now }

def Call.body (call : Call) (current : Document) : Text :=
  match call.form with
  | .patch => current.content ++ call.text
  | .content => call.document.content ++ call.text

/-- The loop over the claim makes three attempts. -/
def claimAttempts : Nat := 3

def retry (attempt : Nat) : Stage :=
  if attempt + 1 < claimAttempts then .claiming (attempt + 1) else .over

structure Section where
  runID : Nat
  text : Text
deriving DecidableEq

structure State where
  document : Document
  claim : Option LoopDocumentAppend
  records : Nat → RunRecord
  calls : List Call
  sections : List Section

def State.start (document : Document) : State :=
  { document := document
    claim := none
    records := fun _ => { busy := false, heartbeatAt := none }
    calls := []
    sections := [] }

def State.put (st : State) (c : Nat) (call : Call) (stage : Stage) : State :=
  { st with calls := st.calls.set c { call with stage := stage } }

/-! ## Statements of a call -/

/-- `prepareLoopDocumentWrite` reads the document and comes to its claim: the
text is not blank, and a whole body extends one that is not. -/
def State.begin (st : State) (run : Nat) (form : Form) (text : Text) : Option State :=
  if trimSpace text ≠ [] ∧ (form = .content → trimSpace st.document.content ≠ []) then
    some { st with
      calls := st.calls ++
        [{ runID := run, form := form, text := text, document := st.document,
           stage := .claiming 0 }] }
  else none

/-- `ClaimLoopDocumentAppend` up to its `INSERT`, which fails on the row of any
claim that has not expired. -/
def State.insert (st : State) (c now : Nat) (reply : Reply) : Option State :=
  st.calls[c]?.bind fun call =>
    match call.stage with
    | .claiming attempt =>
      let kept := st.claim.filter (fun row => !row.expired now)
      match kept, reply with
      | none, .ok =>
        some { st.put c call (.executing true) with claim := some (call.claim now) }
      | none, .unreported =>
        some { st.put c call (.conflicting attempt) with claim := some (call.claim now) }
      | kept, _ => some { st.put c call (.conflicting attempt) with claim := kept }
    | _ => none

/-- `LoopDocumentAppend`: the row that the `INSERT` met. The run's own row lets the call go on;
without a row or an answer it ends. -/
def State.lookup (st : State) (c : Nat) (answered : Bool) : Option State :=
  st.calls[c]?.bind fun call =>
    match call.stage with
    | .conflicting attempt =>
      match answered, st.claim with
      | true, some existing =>
        if existing.runID = call.runID then some (st.put c call (.executing false))
        else some (st.put c call (.judging attempt existing))
      | _, _ => some (st.put c call .over)
    | _ => none

/-- `SettleLoopDocumentAppend` with the section in the document. -/
def settleAppended (claim : Option LoopDocumentAppend) (run : Nat) :
    Option LoopDocumentAppend :=
  claim.map fun row => if row.runID = run then { row with status := .appended } else row

/-- `loopOccurrenceAppendState`, and what the call does with it.  The call sees
the document as it was when it began. -/
def State.judge (st : State) (leaseTTL c now : Nat) (reply : Reply) : Option State :=
  st.calls[c]?.bind fun call =>
    match call.stage with
    | .judging attempt existing =>
      if existing.status = .appended then some (st.put c call .over)
      else if existing.shownIn call.document then
        some { st.put c call .over with
          claim := if reply = .failed then st.claim
            else settleAppended st.claim existing.runID }
      else
        -- An unreadable run counts as one that ended.
        let record := st.records existing.runID
        if reply = .ok ∧ record.busy ∧ !record.stale leaseTTL now then
          some (st.put c call .over)
        else some (st.put c call (.takingOver attempt existing))
    | _ => none

def State.pending (st : State) (run : Nat) : Bool :=
  st.claim.any fun row => row.runID = run ∧ row.status = .pending

def State.takeOver (st : State) (c now : Nat) (reply : Reply) : Option State :=
  st.calls[c]?.bind fun call =>
    match call.stage with
    | .takingOver attempt existing =>
      if st.pending existing.runID then
        match reply with
        | .ok => some { st.put c call (.executing true) with claim := some (call.claim now) }
        | .unreported =>
          some { st.put c call (retry attempt) with claim := some (call.claim now) }
        | .failed => some (st.put c call (retry attempt))
      else some (st.put c call (retry attempt))
    | _ => none

def State.fetch (st : State) (c : Nat) : Option State :=
  st.calls[c]?.bind fun call =>
    match call.stage with
    | .executing claimed => some (st.put c call (.saving claimed st.document))
    | _ => none

/-- `saveMCPDocument` after its read: a body that is there is not written, a patch is written
over the version it was applied to, and the call may be refused for other reasons (`.failed`).
-/
def State.write (st : State) (c : Nat) (reply : Reply) : Option State :=
  st.calls[c]?.bind fun call =>
    match call.stage with
    | .saving claimed current =>
      let body := call.body current
      let stale := call.form = .patch ∧ current.version ≠ st.document.version
      if reply = .failed ∨ stale then some (st.put c call (.executed claimed true))
      else if body = current.content ∨ body = st.document.content then
        some (st.put c call (.executed claimed (reply ≠ .ok)))
      else
        some { st.put c call (.executed claimed (reply ≠ .ok)) with
          document :=
            { st.document with content := body, version := st.document.version + 1 }
          sections := st.sections ++ [{ runID := call.runID, text := call.text }] }
    | _ => none

/-- `verifyLoopDocumentWrite` after a call that succeeded, and the read of
`settleLoopDocumentClaim` after one that failed: whether the document, if it is found, changed
since the call began. -/
def State.verify (st : State) (c : Nat) (found : Bool) : Option State :=
  st.calls[c]?.bind fun call =>
    match call.stage with
    | .executed claimed failed =>
      let changed := found &&
        (st.document.content ≠ call.document.content ||
          (!failed && st.document.title ≠ call.document.title))
      some (st.put c call (if claimed then .settling changed else .over))
    | _ => none

def State.settle (st : State) (c : Nat) (reply : Reply) : Option State :=
  st.calls[c]?.bind fun call =>
    match call.stage with
    | .settling changed =>
      let settled :=
        if reply = .failed then st.claim
        else if changed then settleAppended st.claim call.runID
        else if st.pending call.runID then none
        else st.claim
      some { st.put c call .over with claim := settled }
    | _ => none

inductive Label where
  | begin (run : Nat) (form : Form) (text : Text)
  | insert (c now : Nat) (reply : Reply)
  | lookup (c : Nat) (answered : Bool)
  | judge (c now : Nat) (reply : Reply)
  | takeOver (c now : Nat) (reply : Reply)
  | fetch (c : Nat)
  | write (c : Nat) (reply : Reply)
  | verify (c : Nat) (found : Bool)
  | settle (c : Nat) (reply : Reply)
  | crash (c : Nat)
  /-- A run is recorded as running or not, and renews its lease. -/
  | record (run : Nat) (busy : Bool)
  | heartbeat (run now : Nat)
  /-- Anything else that writes the document. -/
  | edit (content title : Text)
deriving DecidableEq

def State.crash (st : State) (c : Nat) : Option State :=
  st.calls[c]?.map fun call => st.put c call .over

def State.setRecord (st : State) (run : Nat) (record : RunRecord) : State :=
  { st with records := fun r => if r = run then record else st.records r }

def State.step (leaseTTL : Nat) (st : State) : Label → Option State
  | .begin run form text => st.begin run form text
  | .insert c now reply => st.insert c now reply
  | .lookup c answered => st.lookup c answered
  | .judge c now reply => st.judge leaseTTL c now reply
  | .takeOver c now reply => st.takeOver c now reply
  | .fetch c => st.fetch c
  | .write c reply => st.write c reply
  | .verify c found => st.verify c found
  | .settle c reply => st.settle c reply
  | .crash c => st.crash c
  | .record run busy => some (st.setRecord run { st.records run with busy := busy })
  | .heartbeat run now =>
    some (st.setRecord run { st.records run with heartbeatAt := some now })
  | .edit content title =>
    some { st with
      document := { content := content, title := title, version := st.document.version + 1 } }

/-! ## What is promised, and when -/

/-- The sections of the occurrence come from at most one run. -/
def State.OneRun (st : State) : Prop :=
  ∀ a ∈ st.sections, ∀ b ∈ st.sections, a.runID = b.runID

def State.ShowsTwo (st : State) : Prop :=
  ∃ a ∈ st.sections, ∃ b ∈ st.sections, a.runID ≠ b.runID ∧
    a.text <:+: st.document.content ∧ b.text <:+: st.document.content

instance (st : State) : Decidable st.ShowsTwo :=
  inferInstanceAs (Decidable (∃ a ∈ st.sections, ∃ b ∈ st.sections, a.runID ≠ b.runID ∧
    a.text <:+: st.document.content ∧ b.text <:+: st.document.content))

/-- The run has appended nothing, and no call of it may still do so. -/
def State.Idle (st : State) (run : Nat) : Prop :=
  (∀ a ∈ st.sections, a.runID ≠ run) ∧
    ∀ call ∈ st.calls, call.stage.writes → call.runID ≠ run

instance (st : State) (run : Nat) : Decidable (st.Idle run) :=
  inferInstanceAs (Decidable ((∀ a ∈ st.sections, a.runID ≠ run) ∧
    ∀ call ∈ st.calls, call.stage.writes → call.runID ≠ run))

/-- The run whose claim a step ends: it expires, is taken over or is released. -/
def State.ended (st : State) : Label → Option Nat
  | .insert _ now _ => (st.claim.filter (·.expired now)).map (·.runID)
  | .takeOver c _ reply =>
    st.calls[c]?.bind fun call =>
      match call.stage with
      | .takingOver _ existing =>
        if reply ≠ .failed ∧ st.pending existing.runID then some existing.runID else none
      | _ => none
  | .settle c reply =>
    st.calls[c]?.bind fun call =>
      match call.stage with
      | .settling false =>
        if reply ≠ .failed ∧ st.pending call.runID then some call.runID else none
      | _ => none
  | _ => none

/-- A claim changes hands only when its run has appended nothing and is not
about to. -/
def State.Sound (st : State) (l : Label) : Prop :=
  ∀ run ∈ st.ended l, st.Idle run

instance (st : State) (l : Label) : Decidable (st.Sound l) :=
  inferInstanceAs (Decidable (∀ run ∈ st.ended l, st.Idle run))

end Flow.Ports.LoopAppends
