import Mathlib.Data.List.Infix
import Flow.Verified.JsonText
import Flow.Verified.Keyset
import Flow.Verified.Run

/-!
# The sweep of offloaded bodies

Large bodies of documents, of documents in the trash and of agent sessions are kept
apart from the records, under a key that the record names below `_offloaded`.  Events
keep such references in their previous values.  A sweep looks for the keys in the
texts of all records and events, and marks and later deletes the bodies that it has
not found.

The records of a workspace are read in pages of 64 in the order of their keys, the
events in pages of 500 in the order of their ids, any linear order; a scan starts
after a key that it takes for the least one.  Records of different fields may share a
key.  The texts are those that `encoding/json` writes.
-/

namespace Flow.Ports.ContentSweep

open Flow.Verified
open JsonText (Tree escape byteSize quote findAll)

/-- Hexadecimal digits. -/
structure ContentHash where
  hash : List Char → List Char
  hex : ∀ body, ∀ c ∈ hash body, c ∈ "0123456789abcdef".toList

def revisionKind : List Char := "document-revisions/".toList

def transcriptKind : List Char := "agent-transcripts/".toList

/-- Whether a key with the ids in it is too long, or an id has a quote or a
backslash: then the key has a hash of the ids. -/
def hashesIds (key ids : List Char) : Bool :=
  byteSize key > 191 ∨ ids.any fun c => c = '"' ∨ c = '\\'

def blobKey (h : ContentHash) (kind name body : List Char) : List Char :=
  kind ++ name ++ '/' :: h.hash body

def revisionBlobKey (h : ContentHash) (documentID revisionID body : List Char) : List Char :=
  let name := documentID ++ '/' :: revisionID
  let key := blobKey h revisionKind name body
  if hashesIds key (documentID ++ revisionID) then blobKey h revisionKind (h.hash name) body
  else key

def transcriptBlobKey (h : ContentHash) (sessionID body : List Char) : List Char :=
  let key := blobKey h transcriptKind sessionID body
  if hashesIds key sessionID then blobKey h transcriptKind (h.hash sessionID) body else key

def Tree.members : Tree → List (List Char × Tree)
  | .object members => members
  | .literal _ => []
  | .string _ => []
  | .array _ => []

def Tree.string? : Tree → Option (List Char)
  | .string value => some value
  | .literal _ => none
  | .array _ => none
  | .object _ => none

def refKeys (ref : Tree) : List (List Char) :=
  (Tree.members ref).filterMap fun member =>
    if member.1 = "key".toList then Tree.string? member.2 else none

/-- The keys under `_offloaded` of an object. -/
def offloadedRefs (members : List (List Char × Tree)) : List (List Char) :=
  members.flatMap fun member =>
    if member.1 = "_offloaded".toList then
      (Tree.members member.2).flatMap fun ref => refKeys ref.2
    else []

mutual

def references : Tree → List (List Char)
  | .literal _ => []
  | .string _ => []
  | .array items => itemReferences items
  | .object members => offloadedRefs members ++ memberReferences members

def itemReferences : List Tree → List (List Char)
  | [] => []
  | item :: items => references item ++ itemReferences items

def memberReferences : List (List Char × Tree) → List (List Char)
  | [] => []
  | (_, value) :: members => references value ++ memberReferences members

end

def offloadMarkerBytes : List Char := "\"_offloaded\"".toList

def opening : List Char := "\"key\":\"".toList

/-- The class of the pattern: no quote and no backslash. -/
def unquoted (c : Char) : Bool := c ≠ '"' ∧ c ≠ '\\'

/-- The end of a match: some characters of the class, and a quote. -/
def closeKey (kind body rest : List Char) : Option (List Char × Nat) :=
  if body ≠ [] ∧ rest.head? = some '"' then
    some (kind ++ body, opening.length + kind.length + body.length + 1)
  else none

def keyAfter (kind text : List Char) : Option (List Char × Nat) :=
  match (opening ++ kind).isPrefixOf? text with
  | none => none
  | some rest => closeKey kind (rest.takeWhile unquoted) (rest.dropWhile unquoted)

/-- `offloadedKeyPrefix`, at the start of a text. -/
def offloadedKeyPattern (text : List Char) : Option (List Char × Nat) :=
  (keyAfter revisionKind text).or (keyAfter transcriptKind text)

def offloadedKeys (raw : List Char) : List (List Char) :=
  if offloadMarkerBytes <:+: raw then findAll offloadedKeyPattern 0 raw else []

/-! ## The database -/

/-- The collections of a workspace's metadata. -/
inductive Field where
  | documents
  | trash
  | agentSessions
  | other (name : String)
deriving DecidableEq, Repr

def Field.offloads : Field → Bool
  | .documents => true
  | .trash => true
  | .agentSessions => true
  | .other _ => false

/-- A row of `workspace_metadata_records`. -/
structure Record (κ : Type) where
  workspace : String
  field : Field
  recordKey : κ
  data : Tree

/-- A row of `domain_events`. -/
structure Event (κ : Type) where
  id : κ
  eventType : List Char
  previousValues : Option Tree

/-- A row of `metadata_blobs`, with the body. -/
structure Blob where
  workspace : String
  key : List Char
  /-- Times in milliseconds; `orphaned` is 0 for a body that is not marked. -/
  created : Int
  orphaned : Int
deriving DecidableEq, Repr

structure Database (κ : Type) where
  records : List (Record κ)
  events : List (Event κ)
  blobs : List Blob

def Event.references {κ : Type} (event : Event κ) : List (List Char) :=
  (event.previousValues.map ContentSweep.references).getD []

def Event.swept {κ : Type} (event : Event κ) : Bool :=
  "document.".toList.isPrefixOf event.eventType || "trash.".toList.isPrefixOf event.eventType ||
    "agent.".toList.isPrefixOf event.eventType

section Sweep

variable {κ : Type} [LinearOrder κ]

def Database.rows (db : Database κ) (workspace : String) : List (Record κ) :=
  Keyset.inOrder Record.recordKey
    (db.records.filter fun record => record.workspace = workspace ∧ record.field.offloads)

def Database.sweptEvents (db : Database κ) : List (Event κ) :=
  Keyset.inOrder Event.id (db.events.filter Event.swept)

def Database.offloadedEventReferences (db : Database κ) (start : κ) : List (List Char) :=
  (Keyset.scan Event.id 500 db.sweptEvents (db.sweptEvents.length + 1) start).flatMap fun event =>
    (event.previousValues.map fun values => offloadedKeys values.text).getD []

def Database.recordReferences (db : Database κ) (start : κ) (workspace : String) :
    List (List Char) :=
  (Keyset.scan Record.recordKey 64 (db.rows workspace) ((db.rows workspace).length + 1)
    start).flatMap fun record => offloadedKeys record.data.text

def Blob.deleteOffloadedBody (blob : Blob) (orphaned : Int) : Option Blob :=
  if blob.orphaned ≠ orphaned then some blob else none

/-- What `sweepWorkspaceContent` does with a body. -/
def Blob.sweep (blob : Blob) (referenced : List (List Char)) (started limit : Int) :
    Option Blob :=
  if blob.key ∈ referenced then some { blob with orphaned := 0 }
  else if blob.orphaned = 0 then
    some { blob with orphaned := if blob.created < started then started else 0 }
  else if blob.orphaned < limit then blob.deleteOffloadedBody blob.orphaned
  else some blob

def Database.sweepWorkspaceContent (db : Database κ) (start : κ) (now grace : Int)
    (eventReferences : List (List Char)) (workspace : String) : Database κ :=
  let referenced := eventReferences ++ db.recordReferences start workspace
  { db with
    blobs := db.blobs.filterMap fun blob =>
      if blob.workspace = workspace then blob.sweep referenced now (now - grace) else some blob }

def Database.sweepOffloadedContent (db : Database κ) (start : κ) (now grace : Int) : Database κ :=
  let eventReferences := db.offloadedEventReferences start
  (db.blobs.map Blob.workspace).dedup.foldl
    (fun db workspace => db.sweepWorkspaceContent start now grace eventReferences workspace) db

/-- A sweep at a time and with a period of grace. -/
structure Label where
  now : Int
  grace : Int
deriving DecidableEq, Repr

def step (start : κ) (db : Database κ) (l : Label) : Option (Database κ) :=
  some (db.sweepOffloadedContent start l.now l.grace)

end Sweep

/-! ## What the sweep promises -/

def Database.Referenced {κ : Type} (db : Database κ) (workspace : String) (key : List Char) :
    Prop :=
  (∃ record ∈ db.records, record.workspace = workspace ∧ record.field.offloads ∧
    key ∈ references record.data) ∨
  ∃ event ∈ db.events, key ∈ event.references

def Database.Stored {κ : Type} (db : Database κ) (workspace : String) (key : List Char) : Prop :=
  ∃ blob ∈ db.blobs, blob.workspace = workspace ∧ blob.key = key

def Plain (text : List Char) : Prop := ∀ c ∈ text, escape c = [c]

inductive Origin where
  | revision (documentID revisionID body : List Char)
  | transcript (sessionID body : List Char)
deriving DecidableEq, Repr

def Origin.key (h : ContentHash) : Origin → List Char
  | .revision documentID revisionID body => revisionBlobKey h documentID revisionID body
  | .transcript sessionID body => transcriptBlobKey h sessionID body

/-- The ids have no character that JSON escapes, or the key has a hash of them. -/
def Origin.Unescaped (h : ContentHash) : Origin → Prop
  | .revision documentID revisionID body =>
    Plain (documentID ++ revisionID) ∨
      hashesIds (blobKey h revisionKind (documentID ++ '/' :: revisionID) body)
        (documentID ++ revisionID)
  | .transcript sessionID body =>
    Plain sessionID ∨ hashesIds (blobKey h transcriptKind sessionID body) sessionID

/-- What a sweep relies on. -/
structure Sound {κ : Type} [LinearOrder κ] (h : ContentHash) (start : κ) (db : Database κ) :
    Prop where
  /-- Bodies are named as the writers name them, after ids that are written as they
  are. -/
  keys : ∀ workspace key, db.Referenced workspace key →
    ∃ origin : Origin, key = origin.key h ∧ origin.Unescaped h
  events : ∀ event ∈ db.events, event.references ≠ [] → event.swept
  ids : (db.sweptEvents.map Event.id).Nodup ∧ ∀ event ∈ db.sweptEvents, start < event.id
  /-- No record key is the one that the scan starts after. -/
  nonempty : ∀ workspace, ∀ record ∈ db.rows workspace, start < record.recordKey
  /-- No page ends between two records with one key. -/
  aligned : ∀ workspace, Keyset.Aligned Record.recordKey 64 (db.rows workspace)

end Flow.Ports.ContentSweep
