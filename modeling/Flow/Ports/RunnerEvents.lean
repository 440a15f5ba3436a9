import Flow.Ports.CodingOperations
import Flow.Verified.Slots
import Flow.Verified.Table

/-!
# Ingesting runner events

A runner posts its events in batches and posts a batch again until a call succeeds.
`Events` claims each event by its id, applies it (an activity of the anchor, a change
of the session, or both), and completes the claim; the changes of the session are
collected in a patch that is written at the end of the batch.

This is one batch with the session, the claims, the anchor's activities and the call
under way, one store call at a time.  Any of them may fail, and others write the
session and the anchor in between.
-/

namespace Flow.Ports.Events

open Flow.Verified Slots Table
open Flow.Ports.Coding (Time Duration Session SessionPatch SessionStep PlanStep DiffSummary Service
  second isSpace trimSpace firstLine writeDocument)

/-! ## Events -/

inductive EventType where
  | thought
  | action
  | response
  | elicitation
  | error
  | plan
  | status
  | diff
  | usage
  | other (text : String)
deriving DecidableEq, Repr

def EventType.known : EventType → Bool
  | .other _ => false
  | _ => true

/-- A tool call. -/
structure ActionDetail where
  action : String
  parameter : String := ""
  result : String := ""
  tool : String := ""
  exitCode : Option Int := none
deriving DecidableEq, Repr

/-- A runner event; the runner draws `id`, and `error` is the message of its error. The
informational usage and the time are left out. -/
structure RunnerEvent where
  id : String
  turnID : String := ""
  type : EventType
  ephemeral : Bool := false
  body : String := ""
  action : Option ActionDetail := none
  plan : List PlanStep := []
  diff : List DiffSummary := []
  error : Option String := none
  phase : String := ""
deriving DecidableEq, Repr

structure ActivityMetadata where
  action : String
  parameter : String := ""
  result : String := ""
  tool : String := ""
  exitCode : Option Int := none
deriving DecidableEq, Repr

structure Activity where
  type : String
  body : String
  ephemeral : Bool := false
  metadata : Option ActivityMetadata := none
deriving DecidableEq, Repr

/-- The most bytes of an activity's body, and of the end of a result. -/
def maxActivityBody : Nat := 60 * 1024

def maxResultTail : Nat := 4 * 1024

def takeBytes : Nat → List Char → List Char
  | _, [] => []
  | limit, ch :: rest =>
    if ch.utf8Size ≤ limit then ch :: takeBytes (limit - ch.utf8Size) rest else []

def clip (text : String) (limit : Nat) : String :=
  if text.utf8ByteSize ≤ limit then text
  else String.ofList (takeBytes limit text.toList ++ ['…'])

def tail (text : String) (limit : Nat) : String :=
  if text.utf8ByteSize ≤ limit then text
  else String.ofList ('…' :: (takeBytes limit text.toList.reverse).reverse)

def firstNonEmpty : List String → String
  | [] => ""
  | text :: rest => if trimSpace text ≠ "" then trimSpace text else firstNonEmpty rest

def actionActivity (action : ActionDetail) (ephemeral : Bool) : Activity :=
  let body := clip action.action 256
  { type := "action"
    body := if action.parameter ≠ "" then body ++ " " ++ clip action.parameter 1024 else body
    ephemeral
    metadata := some
      { action := clip action.action 256
        parameter := clip action.parameter 4096
        result := tail action.result maxResultTail
        tool := action.tool
        exitCode := action.exitCode } }

def RunnerEvent.planSteps (event : RunnerEvent) : List PlanStep :=
  (event.plan.take 100).map fun step =>
    let status := if step.status = "in_progress" then "inProgress" else step.status
    { content := clip step.content 1024
      status := if status ∈ ["pending", "inProgress", "completed", "canceled"] then status
        else "pending" }

def RunnerEvent.diffs (event : RunnerEvent) : List DiffSummary :=
  event.diff.take 2000

def RunnerEvent.summary (event : RunnerEvent) : String :=
  clip (trimSpace event.body) 1048576

/-- `applyEvent`: what an event adds to the patch, and the activity it creates. -/
def RunnerEvent.apply (event : RunnerEvent) (session : Session) (now : Time)
    (patch : SessionPatch) : SessionPatch × Option Activity :=
  match event.type with
  | .thought =>
    if trimSpace event.body = "" then (patch, none)
    else (patch, some
      { type := "thought", body := clip event.body maxActivityBody, ephemeral := event.ephemeral })
  | .action =>
    match event.action with
    | none => (patch, none)
    | some action =>
      if trimSpace action.action = "" then (patch, none)
      else
        let step : SessionStep :=
          { turnID := firstNonEmpty [event.turnID, session.currentTurnID]
            action := clip (trimSpace action.action) 256
            parameter := firstLine action.parameter 512
            time := now }
        ({ patch with step := some step }, some (actionActivity action event.ephemeral))
  | .status =>
    let patch := if event.phase = "running" then { patch with running := true } else patch
    if trimSpace event.body = "" then (patch, none)
    else (patch, some
      { type := "action", body := clip event.body 256
        metadata := some { action := clip event.body 256 } })
  | .response => ({ patch with summary := event.summary }, none)
  | .elicitation =>
    if trimSpace event.body = "" then (patch, none)
    else ({ patch with awaiting := true }, some
      { type := "elicitation", body := clip event.body maxActivityBody })
  | .error => ({ patch with errorText := clip (event.error.getD event.body) 4096 }, none)
  | .plan => ({ patch with plan := some event.planSteps }, none)
  | .diff => ({ patch with diffs := some event.diffs }, none)
  | .usage | .other _ => (patch, none)

def patchEmpty (patch : SessionPatch) : Bool :=
  patch.plan = none && patch.diffs = none && patch.summary = "" && patch.errorText = "" &&
    !patch.awaiting && !patch.running && patch.step = none

/-- A claim of an event; the id of its activity is the anchor's version after
it. -/
structure EventRow where
  eventID : String
  activityID : Option Nat := none
  claimedAt : Int
  completed : Bool := false
deriving DecidableEq, Repr

def eventClaimStale : Duration := 30 * second

/-- `UnixMilli`. -/
def millis (time : Time) : Int := time / 1000000

/-- Reserves an event id; an unfinished claim that is stale is taken over. -/
def claimRunnerEvent (rows : List EventRow) (eventID : String) (now : Time) :
    Bool × List EventRow :=
  match lookup EventRow.eventID rows eventID with
  | none => (true, rows ++ [{ eventID, claimedAt := millis now }])
  | some row =>
    if !row.completed ∧ row.claimedAt < millis (now - eventClaimStale) then
      (true, replace EventRow.eventID rows { row with claimedAt := millis now })
    else (false, rows)

def completeRunnerEvent (rows : List EventRow) (eventID : String) (activityID : Option Nat) :
    List EventRow :=
  rows.map fun row =>
    if row.eventID = eventID then { row with activityID, completed := true } else row

/-! ## A batch and the calls that post it -/

structure Batch where
  sandboxID : String
  turnID : String
  events : List RunnerEvent
deriving DecidableEq, Repr

def maxEventsPerRequest : Nat := 100

def Batch.valid (batch : Batch) : Bool :=
  batch.events.length ≤ maxEventsPerRequest &&
    batch.events.all fun event => event.id ≠ "" && event.id.utf8ByteSize ≤ 191 && event.type.known

def Batch.serves (batch : Batch) (s : Session) : Bool :=
  s.phase ≠ .done && s.sandboxID = batch.sandboxID && s.currentTurnID = batch.turnID

def RunnerEvent.ofOtherTurn (event : RunnerEvent) (currentTurnID : String) : Bool :=
  event.turnID ≠ "" && currentTurnID ≠ "" && event.turnID ≠ currentTurnID

structure EventsResult where
  accepted : Nat := 0
  duplicates : Nat := 0
  ignored : Nat := 0
deriving DecidableEq, Repr

/-- The next store call of a call; `rest` are the events after the one it is
at, and `left` counts the rounds of `anchorActivity`. -/
inductive Stage where
  | claiming (event : RunnerEvent) (rest : List RunnerEvent)
  | anchoring (event : RunnerEvent) (rest : List RunnerEvent) (activity : Activity) (left : Nat)
  | appending (event : RunnerEvent) (rest : List RunnerEvent) (activity : Activity) (left : Nat)
      (version : Nat)
  /-- The append failed: the anchor is read again. -/
  | rereading (event : RunnerEvent) (rest : List RunnerEvent) (activity : Activity) (left : Nat)
      (version : Nat)
  | completing (event : RunnerEvent) (rest : List RunnerEvent) (activityID : Option Nat)
  | updating
deriving DecidableEq, Repr

structure Attempt where
  session : Session
  patch : SessionPatch
  result : EventsResult
  stage : Stage
deriving DecidableEq, Repr

/-- The session, the claims of its events, the anchor and the call under way.
An activity is kept with the id of the event that created it. -/
structure Intake where
  now : Time
  session : Session
  rows : List EventRow := []
  version : Nat := 0
  activities : List (String × Activity) := []
  attempt : Option Attempt := none
  /-- What the first successful call returned, and the session then. -/
  outcome : Option (EventsResult × Session) := none
  /-- The session has served the sandbox and the turn of the batch so far. -/
  served : Bool
deriving DecidableEq, Repr

def Intake.start (batch : Batch) (session : Session) (rows : List EventRow) (version : Nat)
    (now : Time) : Intake :=
  { now, session, rows, version, served := batch.serves session }

inductive Label where
  | tick (elapsed : Nat)
  | write (session : Session)
  | touch
  /-- The runner posts the batch; the call authenticates and reads the session. -/
  | post (reply : Reply)
  | claim (reply : Reply)
  | task (reply : Reply)
  /-- The anchor may also refuse the activity, which is a failure. -/
  | append (reply : Reply)
  | reread (reply : Reply)
  | complete (reply : Reply)
  | update (reply : Reply)
deriving DecidableEq, Repr

/-- A call that is done with an event goes on to the next, or to the update. -/
def Intake.proceed (w : Intake) (session : Session) (patch : SessionPatch) (result : EventsResult)
    (rest : List RunnerEvent) : Intake :=
  match rest with
  | event :: rest => { w with attempt := some ⟨session, patch, result, .claiming event rest⟩ }
  | [] =>
    if patchEmpty patch then { w with attempt := none, outcome := some (result, w.session) }
    else { w with attempt := some ⟨session, patch, result, .updating⟩ }

def Intake.anchored (w : Intake) (a : Attempt) (event : RunnerEvent) (rest : List RunnerEvent)
    (activityID : Option Nat) : Intake :=
  { w with attempt := some { a with stage := .completing event rest activityID } }

def anchorRounds : Nat := 5

/-- The call posts the batch. An invalid batch and a call that fails here change nothing; late
events of a session that is gone are dropped. -/
def Intake.post (batch : Batch) (w : Intake) : Intake :=
  if !batch.valid then w
  else if w.session.phase = .done ∨ w.session.sandboxID ≠ batch.sandboxID then
    { w with outcome := some ({ ignored := batch.events.length }, w.session) }
  else
    let events := batch.events.filter fun event => !event.ofOtherTurn w.session.currentTurnID
    w.proceed w.session {} { ignored := batch.events.length - events.length } events

def Intake.applied (w : Intake) (a : Attempt) (event : RunnerEvent) (rest : List RunnerEvent) :
    Intake :=
  match event.apply a.session w.now a.patch with
  | (patch, none) =>
    { w with attempt := some { a with patch, stage := .completing event rest none } }
  | (patch, some activity) =>
    { w with
      attempt := some { a with patch, stage := .anchoring event rest activity anchorRounds } }

def Intake.claim (w : Intake) (a : Attempt) (event : RunnerEvent) (rest : List RunnerEvent)
    (reply : Reply) : Intake :=
  if reply = .failed then { w with attempt := none }
  else
    match claimRunnerEvent w.rows event.id w.now with
    | (claimed, rows) =>
      if reply = .unreported then { w with rows, attempt := none }
      else if claimed then Intake.applied { w with rows } a event rest
      else w.proceed a.session a.patch { a.result with duplicates := a.result.duplicates + 1 } rest

/-- `AppendAgentActivity` succeeds on the version that was read. -/
def Intake.append (w : Intake) (a : Attempt) (event : RunnerEvent) (rest : List RunnerEvent)
    (activity : Activity) (left version : Nat) (reply : Reply) : Intake :=
  let again := some { a with stage := .rereading event rest activity left version }
  if reply = .failed ∨ version ≠ w.version then { w with attempt := again }
  else
    let w := { w with
      version := w.version + 1, activities := w.activities ++ [(event.id, activity)] }
    if reply = .ok then w.anchored a event rest (some w.version) else { w with attempt := again }

/-- The append failed; it was a race if the anchor has changed. -/
def Intake.reread (w : Intake) (a : Attempt) (event : RunnerEvent) (rest : List RunnerEvent)
    (activity : Activity) (left version : Nat) (reply : Reply) : Intake :=
  if reply ≠ .ok ∨ version = w.version then w.anchored a event rest none
  else
    match left with
    | 0 | 1 => w.anchored a event rest none
    | left + 2 =>
      { w with attempt := some { a with stage := .anchoring event rest activity (left + 1) } }

def Intake.complete (w : Intake) (a : Attempt) (event : RunnerEvent) (rest : List RunnerEvent)
    (activityID : Option Nat) (reply : Reply) : Intake :=
  if reply = .failed then { w with attempt := none }
  else
    let w := { w with rows := completeRunnerEvent w.rows event.id activityID }
    if reply = .ok then
      w.proceed a.session a.patch { a.result with accepted := a.result.accepted + 1 } rest
    else { w with attempt := none }

/-- The patch is written; a session that has moved to another sandbox is left
alone. -/
def Intake.update (svc : Service) (w : Intake) (a : Attempt) (reply : Reply) : Intake :=
  if reply = .failed then { w with attempt := none }
  else
    let w :=
      if w.session.sandboxID ≠ a.session.sandboxID then w
      else { w with
        session := writeDocument w.session (svc.patchApply a.patch w.now w.session) }
    if reply = .ok then { w with attempt := none, outcome := some (a.result, w.session) }
    else { w with attempt := none }

/-- One store call of the call under way, or a step of something else. -/
def Intake.step (svc : Service) (batch : Batch) (w : Intake) (label : Label) : Option Intake :=
  match label, w.attempt with
  | .tick elapsed, _ => some { w with now := w.now + elapsed }
  | .write session, _ => some { w with session, served := w.served && batch.serves session }
  | .touch, _ => some { w with version := w.version + 1 }
  | .post reply, none =>
    if w.outcome.isSome then none else some (if reply = .ok then w.post batch else w)
  | .claim reply, some a =>
    match a.stage with
    | .claiming event rest => some (w.claim a event rest reply)
    | _ => none
  | .task reply, some a =>
    match a.stage with
    | .anchoring event rest activity left =>
      some (if reply = .ok then
        { w with
          attempt := some { a with stage := .appending event rest activity left w.version } }
      else w.anchored a event rest none)
    | _ => none
  | .append reply, some a =>
    match a.stage with
    | .appending event rest activity left version =>
      some (w.append a event rest activity left version reply)
    | _ => none
  | .reread reply, some a =>
    match a.stage with
    | .rereading event rest activity left version =>
      some (w.reread a event rest activity left version reply)
    | _ => none
  | .complete reply, some a =>
    match a.stage with
    | .completing event rest activityID => some (w.complete a event rest activityID reply)
    | _ => none
  | .update reply, some a =>
    match a.stage with
    | .updating => some (w.update svc a reply)
    | _ => none
  | _, _ => none

/-! ## What is promised -/

def Latest (p : RunnerEvent → Prop) : List RunnerEvent → Prop
  | [] => True
  | event :: rest => ((∃ later ∈ rest, later.type = event.type) ∨ p event) ∧ Latest p rest

instance decidableLatest (p : RunnerEvent → Prop) [DecidablePred p] :
    ∀ events, Decidable (Latest p events)
  | [] => isTrue trivial
  | _ :: rest => @instDecidableAnd _ _ inferInstance (decidableLatest p rest)

/-- The session shows the plan, diffs, response or status of an event; a blank response and a
status other than running have nothing to show. -/
def RunnerEvent.ShownBy (s : Session) (event : RunnerEvent) : Prop :=
  (event.type = .plan → s.plan = event.planSteps) ∧
    (event.type = .diff → s.diffs = event.diffs) ∧
    (event.type = .response → event.summary ≠ "" → s.summary = event.summary) ∧
    (event.type = .status → event.phase = "running" → s.phase ≠ .setup)

instance (s : Session) : DecidablePred (RunnerEvent.ShownBy s) := fun _ =>
  inferInstanceAs (Decidable (_ ∧ _))

def Batch.mine (batch : Batch) : List RunnerEvent :=
  batch.events.filter fun event => !event.ofOtherTurn batch.turnID

/-- **Events take effect**: when a call has succeeded, the session showed every event of the
batch not superseded within it. -/
def Reflected (batch : Batch) (w : Intake) : Prop :=
  ∀ entry ∈ w.outcome, Latest (RunnerEvent.ShownBy entry.2) batch.mine

def activitiesOf (activities : List (String × Activity)) (eventID : String) : Nat :=
  activities.countP fun entry => entry.1 = eventID

/-- **No event is shown twice**: no event of the batch has created more than one
activity. -/
def Once (batch : Batch) (w : Intake) : Prop :=
  ∀ event ∈ batch.events, activitiesOf w.activities event.id ≤ 1

instance (batch : Batch) (w : Intake) : Decidable (Reflected batch w) :=
  inferInstanceAs (Decidable (∀ entry ∈ w.outcome, _))

instance (batch : Batch) (w : Intake) : Decidable (Once batch w) :=
  inferInstanceAs (Decidable (∀ event ∈ batch.events, _))

/-- A claim fails only without an effect and while the patch is empty; an append
does not fail after its effect; completing a claim and the update do not fail. -/
def Intake.spared (w : Intake) : Label → Bool
  | .claim reply =>
    reply = .ok || reply = .failed && w.attempt.all fun a => patchEmpty a.patch
  | .append reply => reply ≠ .unreported
  | .complete reply | .update reply => reply = .ok
  | _ => true

def Spared (w : Intake) (label : Label) : Prop :=
  w.spared label

instance (w : Intake) (label : Label) : Decidable (Spared w label) :=
  inferInstanceAs (Decidable (w.spared label = true))

end Flow.Ports.Events
