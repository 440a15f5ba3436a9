import Mathlib.Data.Prod.Lex
import Flow.Ports.IssueSelection
import Flow.Ports.IssueStats
import Flow.Verified.JsonText

/-!
# Pages of issues

`QueryIssueRecords` returns the rows of a query a page at a time.  A page starts after
the row that a cursor names, in the order of the sort value and the id; one row more
than the limit is read to see whether there are more, and a page of summaries also ends
when its payloads have passed four megabytes.  Read in reverse, the rows before the
cursor are taken from the far end and turned around.

A cursor is the JSON of the sort value and the id of a row, in base64; one of more than
4096 bytes is refused, and so is one with the hash of another query.  The issues of the
releases that a query asks for become part of it at every request.

The text of a number and what is read back from it are parameters (`Numbers`).
-/

namespace Flow.Ports.IssueQuery

open Flow.Verified

structure Release where
  id : String
  slugID : String
  issueIDs : List String

/-- The fields of `IssueRecordQuery` that order and cut the rows. -/
structure Listing extends Query where
  sort : String
  direction : String
  limit : Int
  summary : Bool
  cursors : Bool

/-- What one request reads. -/
structure Store where
  db : Db
  /-- Ids are the primary key. -/
  distinct : (db.records.map Row.id).Nodup
  releases : List Release
  /-- `customerSortExpression`: what an issue is worth in a customer ordering. -/
  customerValue : String → String → Rat
  /-- The payload and description that a page holds of a row, in bytes. -/
  bytes : Row → Nat

/-- The ids in order, each once. -/
def releaseAssociatedIssueIDs (store : Store) (releaseIDs : List String) : List String :=
  let wanted := releaseIDs.filter (· ≠ "")
  let found := store.releases.filter fun release =>
    wanted.contains release.id || wanted.contains release.slugID
  Grouping.distinct ((found.flatMap Release.issueIDs).filter (· ≠ ""))

/-- `applyIssueRecordScope`. -/
def Store.scoped (store : Store) (query : Query) : Query :=
  match query.releaseIDs with
  | [] => query
  | releaseIDs =>
    { query with
      issueIDs := releaseAssociatedIssueIDs store releaseIDs
      restrictToIssueIDs := true }

/-- The numbers of cursors. -/
structure Numbers where
  /-- The bytes of the text of a number. -/
  size : Rat → Nat
  /-- `strconv.ParseFloat` of the text of a number. -/
  parse : Rat → Rat

def sortValue (store : Store) (sort : String) : Option (Row → Cell) :=
  match sort with
  | "" => some fun row => .number row.sortOrder
  | "sortOrder" => some fun row => .number row.sortOrder
  -- no priority (0) sorts after low (4)
  | "priority" => some fun row => .number (if row.priority = 0 then 5 else row.priority)
  | "createdAt" => some fun row => .text row.createdAt
  | "updatedAt" => some fun row => .text row.updatedAt
  | "title" => some fun row => .text row.title
  | "customerCount" => some fun row => .number (store.customerValue sort row.id)
  | "customerImportantCount" => some fun row => .number (store.customerValue sort row.id)
  | "customerRevenue" => some fun row => .number (store.customerValue sort row.id)
  | _ => none

def descending : String → Option Bool
  | "desc" => some true
  | "" => some false
  | "asc" => some false
  | _ => none

def pageLimit (limit : Int) : Nat :=
  if limit ≤ 0 then 100 else if limit > 500 then 500 else limit.toNat

structure Cursor where
  /-- The issue ids of the scoped query, for its hash: the rest of the query is the same at
  all requests of a listing. -/
  scope : List String
  value : Cell
  id : String
deriving DecidableEq, Repr

abbrev Selected : Type := Row × Cell

def place (row : Selected) : Cell × String := (row.2, row.1.id)

/-- The cursor of a row.  The id is that of its payload. -/
def cursorOf (scope : List String) (row : Selected) : Cursor :=
  ⟨scope, row.2, IssueStats.stripNUL row.1.id⟩

def Numbers.cellSize (numbers : Numbers) : Cell → Nat
  | .text value => JsonText.byteSize (value.toList.flatMap JsonText.escape)
  | .number value => numbers.size value

/-- The bytes of the JSON of a cursor, with a version and the hexadecimal digits
of a SHA-256. -/
def Cursor.jsonSize (cursor : Cursor) (numbers : Numbers) : Nat :=
  "\x7b\"v\":1,\"scope\":\"".length + 64 + "\",\"value\":\"".length +
    numbers.cellSize cursor.value + "\",\"id\":\"".length +
    JsonText.byteSize (cursor.id.toList.flatMap JsonText.escape) +
    "\"\x7d".length

def encodedLen (n : Nat) : Nat := n / 3 * 4 + (n % 3 * 8 + 5) / 6

def maxCursor : Nat := 4096

/-- The place a cursor names, or none when it is refused. -/
def decodeCursor (numbers : Numbers) (scope : List String) (cursor : Cursor) :
    Option (Cell × String) :=
  if encodedLen (cursor.jsonSize numbers) > maxCursor ∨ cursor.scope ≠ scope ∨ cursor.id = "" then
    none
  else
    match cursor.value with
    | .number value => some (.number (numbers.parse value), cursor.id)
    | .text value => some (.text value, cursor.id)

def startFrom (numbers : Numbers) (scope : List String) :
    Option Cursor → Option (Option (Cell × String))
  | none => some none
  | some cursor => (decodeCursor numbers scope cursor).map some

/-! ## The rows of a page -/

/-- `expression > ? OR (expression = ? AND i.id > ?)`, or with `<`. -/
def keysetClause (down : Bool) (start : Cell × String) (row : Selected) : Bool :=
  if down then row.2 < start.1 || row.2 = start.1 && row.1.id < start.2
  else start.1 < row.2 || row.2 = start.1 && start.2 < row.1.id

/-- `ORDER BY expression, i.id`, or with `DESC`. -/
def sortsBefore (down : Bool) (a b : Selected) : Bool :=
  if down then b.2 < a.2 || a.2 = b.2 && b.1.id ≤ a.1.id
  else a.2 < b.2 || a.2 = b.2 && a.1.id ≤ b.1.id

def scanRows (down : Bool) (start : Option (Cell × String)) (rows : List Selected) :
    List Selected :=
  (rows.filter fun row => start.all fun start => keysetClause down start row).insertionSort
    fun a b => sortsBefore down a b = true

/-- `4<<20`. -/
def maxPageBytes : Nat := 4 * 2 ^ 20

/-- The loop over the scanned rows: those of the page, and whether it stopped
before the last. -/
def fillPage (limit : Nat) (summary : Bool) (bytes : Row → Nat) :
    Nat → Nat → List Selected → List Selected × Bool
  | _, _, [] => ([], false)
  | count, used, row :: rest =>
    if count = limit ∨ summary ∧ 0 < count ∧ used + bytes row.1 > maxPageBytes then ([], true)
    else
      let (items, more) := fillPage limit summary bytes (count + 1) (used + bytes row.1) rest
      (row :: items, more)

structure Page where
  items : List Row
  hasMore : Bool
  nextCursor : Option Cursor
  startCursor : Option Cursor
  endCursor : Option Cursor
  hasPrevious : Bool

def makePage (listing : Listing) (scope : List String) (cursor : Option Cursor) (reverse : Bool)
    (read : List Selected × Bool) : Page :=
  let items := if reverse then read.1.reverse else read.1
  { items := items.map Prod.fst
    hasMore := if reverse then cursor.isSome else read.2
    nextCursor := if !reverse && read.2 then items.getLast?.map (cursorOf scope) else none
    startCursor := if listing.cursors then items.head?.map (cursorOf scope) else none
    endCursor := if listing.cursors then items.getLast?.map (cursorOf scope) else none
    hasPrevious := listing.cursors && if reverse then read.2 else cursor.isSome }

def selectedRows (store : Store) (condition : Row → Bool) (value : Row → Cell) : List Selected :=
  (store.db.records.filter condition).map fun row => (row, value row)

/-- `QueryIssueRecords`, or none when the query or its cursor is refused. -/
def queryIssueRecords (numbers : Numbers) (store : Store) (listing : Listing)
    (cursor : Option Cursor) (reverse : Bool) : Option Page := do
  let query := store.scoped listing.toQuery
  let condition ← issueRecordSelection store.db query
  let value ← sortValue store listing.sort
  let down ← descending listing.direction
  let start ← startFrom numbers query.issueIDs cursor
  let limit := pageLimit listing.limit
  let rows := scanRows (down != reverse) start (selectedRows store condition value)
  some (makePage listing query.issueIDs cursor reverse
    (fillPage limit listing.summary store.bytes 0 0 (rows.take (limit + 1))))

def Page.goesOn (page : Page) (reverse : Bool) : Bool :=
  if reverse then page.hasPrevious else page.hasMore

def Page.next (page : Page) (reverse : Bool) : Option Cursor :=
  if reverse then page.startCursor else page.nextCursor

/-- The pages of a traversal, one request to each store, until there are no more
rows.  None is a refused request. -/
def follow (numbers : Numbers) (listing : Listing) (reverse : Bool) :
    List Store → Option Cursor → Option (List Page)
  | [], _ => some []
  | store :: later, cursor =>
    (queryIssueRecords numbers store listing cursor reverse).bind fun page =>
      if page.goesOn reverse then
        (follow numbers listing reverse later (page.next reverse)).map (page :: ·)
      else some [page]

def finished (reverse : Bool) (pages : List Page) : Bool :=
  pages.getLast?.any fun page => !page.goesOn reverse

def traversed (reverse : Bool) (pages : List Page) : List Row :=
  (if reverse then pages.reverse else pages).flatMap Page.items

end Flow.Ports.IssueQuery
