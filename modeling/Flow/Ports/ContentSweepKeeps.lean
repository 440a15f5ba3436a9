import Mathlib.Data.List.TakeWhile
import Mathlib.Data.String.Basic
import Flow.Ports.ContentSweep

/-!
# A sweep keeps what is referenced

Every reference with a key that is written as it is stands in the text of its
record as one match of the pattern.  No earlier match reaches into it: such a match
would end with the quote that opens the reference's name, and the quotes of a text
cannot be paired in that way.  The scans read every record and every event, so the
key of every reference is found.
-/

namespace Flow.Ports.ContentSweep

open List Option Flow.Verified JsonText
open Run (Reaches)

section Keys

variable {h : ContentHash}

theorem plain_append {a b : List Char} : Plain (a ++ b) ↔ Plain a ∧ Plain b :=
  forall_mem_append

theorem plain_cons {c : Char} {text : List Char} :
    Plain (c :: text) ↔ escape c = [c] ∧ Plain text :=
  forall_mem_cons

theorem escape_hex : ∀ c ∈ "0123456789abcdef".toList, escape c = [c] :=
  forall_mem_of_all (by decide)

theorem plain_blobKey {kind name : List Char} (hkind : Plain kind) (hname : Plain name)
    (body : List Char) : Plain (blobKey h kind name body) := by
  rw [blobKey, plain_append, plain_append, plain_cons]
  exact ⟨⟨hkind, hname⟩, by decide, fun c hc => escape_hex c (h.hex body c hc)⟩

def IsKind (kind : List Char) : Prop := kind = revisionKind ∨ kind = transcriptKind

def Findable (key : List Char) : Prop :=
  ∃ kind body, key = kind ++ body ∧ IsKind kind ∧ body ≠ [] ∧ Plain key

theorem IsKind.plain {kind : List Char} (hkind : IsKind kind) : Plain kind := by
  rcases hkind with rfl | rfl <;> exact forall_mem_of_all (by decide)

theorem findable_blobKey {kind name : List Char} (hkind : IsKind kind) (hname : Plain name)
    (body : List Char) : Findable (blobKey h kind name body) := by
  refine ⟨kind, name ++ '/' :: h.hash body, ?_, hkind, ?_, plain_blobKey hkind.plain hname body⟩
  · rw [blobKey, append_assoc]
  · exact append_ne_nil_of_right_ne_nil _ (cons_ne_nil _ _)

theorem Origin.findable {origin : Origin} (ho : origin.Unescaped h) : Findable (origin.key h) := by
  cases origin with
  | revision documentID revisionID body =>
    rw [Origin.key, revisionBlobKey]
    split
    · exact findable_blobKey (.inl rfl) (fun c hc => escape_hex c (h.hex _ c hc)) body
    · rename_i hshort
      obtain ⟨hdocument, hrevision⟩ := plain_append.mp (ho.resolve_right hshort)
      refine findable_blobKey (.inl rfl) (plain_append.mpr ⟨hdocument, ?_⟩) body
      exact plain_cons.mpr ⟨by decide, hrevision⟩
  | transcript sessionID body =>
    rw [Origin.key, transcriptBlobKey]
    split
    · exact findable_blobKey (.inr rfl) (fun c hc => escape_hex c (h.hex _ c hc)) body
    · rename_i hshort
      exact findable_blobKey (.inr rfl) (ho.resolve_right hshort) body

end Keys

/-! ## A reference in a text -/

variable {c : Char} {key kind text : List Char} {tree : Tree}

theorem unquoted_of_escape (hc : escape c = [c]) : unquoted c := by
  refine decide_eq_true ⟨?_, ?_⟩
  · rintro rfl
    exact absurd hc (by decide)
  · rintro rfl
    exact absurd hc (by decide)

theorem flatMap_escape (htext : Plain text) : text.flatMap escape = text := by
  induction text with
  | nil => rfl
  | cons c text ih =>
    obtain ⟨hc, htext⟩ := plain_cons.mp htext
    rw [flatMap_cons, hc, ih htext]
    rfl

theorem quote_key (hkey : Plain key) :
    quote "key".toList ++ ':' :: quote key = opening ++ key ++ ['"'] := by
  have hname : quote "key".toList ++ [':', '"'] = opening := by decide
  rw [← hname, quote, quote, flatMap_escape hkey]
  simp

theorem keyAfter_eq {body : List Char} (hbody : body ≠ []) (hplain : Plain body)
    (rest : List Char) :
    keyAfter kind (opening ++ (kind ++ body) ++ '"' :: rest) =
      some (kind ++ body, opening.length + kind.length + body.length + 1) := by
  have hall : ∀ c ∈ body, unquoted c = true := fun c hc => unquoted_of_escape (hplain c hc)
  have hstop : ¬ unquoted '"' = true := by decide
  have hsplit : (opening ++ kind).isPrefixOf? (opening ++ (kind ++ body) ++ '"' :: rest) =
      some (body ++ '"' :: rest) := by
    rw [isPrefixOf?_eq_some_iff_append_eq]
    simp
  rw [keyAfter, hsplit]
  simp only [takeWhile_append_of_pos hall, dropWhile_append_of_pos hall,
    takeWhile_cons_of_neg hstop, append_nil]
  rw [closeKey, if_pos ⟨hbody, rfl⟩]

theorem opening_eq : opening = ['"', 'k', 'e', 'y', '"', ':', '"'] := by decide

theorem offloadedKeyPattern_eq {body : List Char} (hkind : IsKind kind) (hbody : body ≠ [])
    (hplain : Plain body) (rest : List Char) :
    offloadedKeyPattern (opening ++ (kind ++ body) ++ '"' :: rest) =
      some (kind ++ body, opening.length + kind.length + body.length + 1) := by
  rw [offloadedKeyPattern]
  rcases hkind with rfl | rfl
  · rw [keyAfter_eq hbody hplain, some_or]
  · have hother : keyAfter revisionKind (opening ++ (transcriptKind ++ body) ++ '"' :: rest) =
        none := rfl
    rw [hother, none_or, keyAfter_eq hbody hplain]

theorem offloadedKeyPattern_some {found : List Char} {size : Nat}
    (hmatch : offloadedKeyPattern text = some (found, size)) :
    ∃ kind body rest, IsKind kind ∧ (∀ c ∈ body, unquoted c) ∧
      text = opening ++ ((kind ++ body) ++ '"' :: rest) ∧
      size = opening.length + (kind ++ body).length + 1 := by
  have hafter : ∀ kind, keyAfter kind text = some (found, size) →
      ∃ body rest, (∀ c ∈ body, unquoted c = true) ∧
        text = opening ++ ((kind ++ body) ++ '"' :: rest) ∧
        size = opening.length + (kind ++ body).length + 1 := by
    intro kind hkey
    rw [keyAfter] at hkey
    split at hkey
    · cases hkey
    · rename_i tail hsplit
      rw [isPrefixOf?_eq_some_iff_append_eq] at hsplit
      rw [closeKey] at hkey
      split at hkey
      · rename_i hclosed
        obtain ⟨rest, hrest⟩ := head?_eq_some_iff.mp hclosed.2
        refine ⟨tail.takeWhile unquoted, rest, fun c hc => mem_takeWhile_imp hc, ?_, ?_⟩
        · rw [append_assoc kind, ← hrest, takeWhile_append_dropWhile, ← hsplit,
            append_assoc]
        · rw [← (Prod.mk.inj (some.inj hkey)).2, length_append]
          omega
      · cases hkey
  rcases or_eq_some_iff.mp hmatch with hkey | ⟨_, hkey⟩
  · obtain ⟨body, rest, h⟩ := hafter _ hkey
    exact ⟨_, body, rest, .inl rfl, h⟩
  · obtain ⟨body, rest, h⟩ := hafter _ hkey
    exact ⟨_, body, rest, .inr rfl, h⟩

theorem IsKind.unquoted (hkind : IsKind kind) : ∀ c ∈ kind, unquoted c := by
  rcases hkind with rfl | rfl <;> exact forall_mem_of_all (by decide)

theorem IsKind.head_ne (hkind : IsKind kind) (body : List Char) :
    ∃ c rest, kind ++ body = c :: rest ∧ c ≠ 'k' := by
  rcases hkind with rfl | rfl
  · exact ⟨'d', _, rfl, by decide⟩
  · exact ⟨'a', _, rfl, by decide⟩

theorem eq_of_append_quote {a b x y : List Char} (ha : '"' ∉ a) (hlen : b.length ≤ a.length)
    (heq : b ++ '"' :: x = a ++ '"' :: y) : b = a := by
  rcases append_eq_append_iff.mp heq with ⟨c, rfl, hc⟩ | ⟨c, rfl, hc⟩
  · cases c with
    | nil => rw [append_nil]
    | cons d c =>
      obtain rfl := (cons.inj hc).1
      exact absurd (mem_append_right _ mem_cons_self) ha
  · rw [length_append] at hlen
    obtain rfl : c = [] := length_eq_zero_iff.mp (by omega)
    rw [append_nil]

/-- A match that starts before a reference and reaches into it ends with its first quote:
nothing else of it fits the start of the reference. -/
theorem start_eq_of_crossing {start inner rest rest' : List Char} {inner' : List Char}
    (hinner : inner = c :: inner') (hc : c ≠ 'k') (hquote : '"' ∉ inner) (hne : start ≠ [])
    (hlen : start.length ≤ opening.length + inner.length)
    (heq : start ++ (opening ++ rest) = opening ++ (inner ++ '"' :: rest')) :
    start = opening ++ inner := by
  rw [opening_eq] at heq hlen ⊢
  -- the places of the quotes of the match are 0, 4, 6 and its end
  match start, hne with
  | [_], _ => simp at heq
  | [_, _], _ => simp at heq
  | [_, _, _], _ => simp at heq
  | [_, _, _, _], _ => simp at heq
  | [_, _, _, _, _], _ => simp at heq
  | [_, _, _, _, _, _], _ =>
    simp only [cons_append, nil_append, cons.injEq, hinner] at heq
    exact absurd heq.2.2.2.2.2.2.2.1.symm hc
  | _ :: _ :: _ :: _ :: _ :: _ :: _ :: start, _ =>
    simp only [cons_append, cons.injEq] at heq
    obtain ⟨rfl, rfl, rfl, rfl, rfl, rfl, rfl, heq⟩ := heq
    have hlen : start.length ≤ inner.length := by
      simp only [length_cons, length_nil] at hlen
      omega
    rw [eq_of_append_quote hquote hlen heq]
    rfl

/-- The name and the value of a match, up to its last quote, do not end outside of
strings. -/
theorem lex_match_ne {inner : List Char} (hinner : ∀ c ∈ inner, c ≠ '"' ∧ c ≠ '\\')
    (state : Lexing) : lex state (opening ++ inner) ≠ .outside := by
  have hstray : ∀ text, lex .stray text = .stray := by
    intro text
    induction text with
    | nil => rfl
    | cons c text ih => exact ih
  cases state with
  | outside | escaped => exact (lex_inside hinner).trans_ne nofun
  | inside | stray => exact (hstray _).trans_ne nofun

/-- No match that starts before a reference reaches into it. -/
theorem apart_opening {before : List Char} (hlex : lex .outside before = .outside)
    (rest : List Char) : Apart offloadedKeyPattern before (opening ++ rest) := by
  intro start hne hsuffix found size hmatch
  obtain ⟨kind, body, after, hkind, hbody, htext, rfl⟩ := offloadedKeyPattern_some hmatch
  have hinner : ∀ c ∈ kind ++ body, c ≠ '"' ∧ c ≠ '\\' := fun c hc =>
    (of_decide_eq_true ((mem_append.mp hc).elim (hkind.unquoted c) (hbody c)))
  obtain ⟨c, inner, hhead, hc⟩ := hkind.head_ne body
  by_contra hlong
  have hstart : start = opening ++ (kind ++ body) :=
    start_eq_of_crossing hhead hc (fun hmem => (hinner _ hmem).1 rfl) hne (by omega) htext
  obtain ⟨first, rfl⟩ := hsuffix
  rw [lex_append, hstart] at hlex
  exact lex_match_ne hinner _ hlex

theorem mem_offloadedKeys (hkey : Findable key) (hmarker : offloadMarkerBytes <:+: text)
    (hoccurs : Occurs (quote "key".toList ++ ':' :: quote key) text) :
    key ∈ offloadedKeys text := by
  obtain ⟨kind, body, rfl, hkind, hbody, hplain⟩ := hkey
  obtain ⟨before, after, rfl, hlex⟩ := hoccurs
  have htext : before ++ (quote "key".toList ++ ':' :: quote (kind ++ body)) ++ after =
      before ++ (opening ++ ((kind ++ body) ++ '"' :: after)) := by
    rw [quote_key hplain]
    simp
  rw [offloadedKeys, if_pos hmarker, htext]
  have hmatch := offloadedKeyPattern_eq hkind hbody (plain_append.mp hplain).2 after
  refine mem_findAll (apart_opening hlex _) ?_ hmatch
  exact append_ne_nil_of_left_ne_nil (by rw [opening_eq]; nofun) _

/-! ## References in trees -/

/-- A text in which a reference stands, with the marker. -/
def Names (text key : List Char) : Prop :=
  offloadMarkerBytes <:+: text ∧ Occurs (quote "key".toList ++ ':' :: quote key) text

theorem Names.occurs {part : List Char} (h : Names part key) (hpart : Occurs part text) :
    Names text key := by
  refine ⟨h.1.trans ?_, h.2.trans hpart⟩
  obtain ⟨before, after, htext, _⟩ := hpart
  exact ⟨before, after, htext.symm⟩

theorem quote_marker : quote "_offloaded".toList = offloadMarkerBytes := by decide

theorem mem_members {member : List Char × Tree} (h : member ∈ Tree.members tree) :
    ∃ members, tree = .object members ∧ member ∈ members := by
  cases tree with
  | object members => exact ⟨members, rfl, h⟩
  | literal value => cases h
  | string value => cases h
  | array items => cases h

theorem names_offloadedRefs {members : List (List Char × Tree)}
    (hkey : key ∈ offloadedRefs members) :
    Names (Tree.object members).text key := by
  obtain ⟨⟨name, value⟩, hmember, hkey⟩ := mem_flatMap.mp hkey
  split at hkey
  · rename_i hname
    obtain rfl : name = "_offloaded".toList := hname
    obtain ⟨⟨_, ref⟩, href, hinRef⟩ := mem_flatMap.mp hkey
    obtain ⟨refs, rfl, href⟩ := mem_members href
    obtain ⟨⟨field, content⟩, hfield, hinField⟩ := mem_filterMap.mp hinRef
    obtain ⟨fields, rfl, hfield⟩ := mem_members hfield
    split at hinField
    · rename_i hname
      obtain rfl : field = "key".toList := hname
      obtain rfl : content = .string key := by
        cases content with
        | string value => exact congrArg Tree.string (some.inj hinField)
        | literal value => cases hinField
        | array items => cases hinField
        | object members => cases hinField
      constructor
      · obtain ⟨before, after, htext, _⟩ := occurs_member hmember
        refine ⟨before, ':' :: (Tree.object refs).text ++ after, ?_⟩
        rw [htext, quote_marker]
        simp
      · have hstring :
            Occurs (quote "key".toList ++ ':' :: quote key) (Tree.object fields).text := by
          have := occurs_member hfield
          rwa [Tree.text] at this
        exact hstring.trans ((occurs_value href).trans (occurs_value hmember))
    · cases hinField
  · cases hkey

mutual

theorem names_references : ∀ (tree : Tree) {key : List Char}, key ∈ references tree →
    Names tree.text key
  | .literal _, _, hkey => by
      cases hkey
  | .string _, _, hkey => by
      cases hkey
  | .array items, _, hkey => by
      obtain ⟨item, hitem, hnames⟩ := names_itemReferences items hkey
      exact hnames.occurs (occurs_item hitem)
  | .object members, _, hkey => by
      rcases mem_append.mp hkey with hkey | hkey
      · exact names_offloadedRefs hkey
      · obtain ⟨member, hmember, hnames⟩ := names_memberReferences members hkey
        exact hnames.occurs (occurs_value hmember)

theorem names_itemReferences : ∀ (items : List Tree) {key : List Char},
    key ∈ itemReferences items → ∃ item ∈ items, Names item.text key
  | [], _, hkey => by
      cases hkey
  | item :: items, _, hkey => by
      rcases mem_append.mp hkey with hkey | hkey
      · exact ⟨item, mem_cons_self, names_references item hkey⟩
      · obtain ⟨other, hother, hnames⟩ := names_itemReferences items hkey
        exact ⟨other, mem_cons_of_mem _ hother, hnames⟩

theorem names_memberReferences : ∀ (members : List (List Char × Tree)) {key : List Char},
    key ∈ memberReferences members → ∃ member ∈ members, Names member.2.text key
  | [], _, hkey => by
      cases hkey
  | (name, value) :: members, _, hkey => by
      rcases mem_append.mp hkey with hkey | hkey
      · exact ⟨(name, value), mem_cons_self, names_references value hkey⟩
      · obtain ⟨other, hother, hnames⟩ := names_memberReferences members hkey
        exact ⟨other, mem_cons_of_mem _ hother, hnames⟩

end

theorem mem_offloadedKeys_text (hkey : Findable key) (href : key ∈ references tree) :
    key ∈ offloadedKeys tree.text :=
  mem_offloadedKeys hkey (names_references tree href).1 (names_references tree href).2

section Sweeps

variable {κ : Type} [LinearOrder κ] {h : ContentHash} {start : κ} {db db' : Database κ}
  {workspace : String} {key : List Char}

theorem Sound.findable (hs : Sound h start db) (href : db.Referenced workspace key) :
    Findable key := by
  obtain ⟨origin, rfl, ho⟩ := hs.keys workspace key href
  exact Origin.findable ho

theorem Sound.scan_rows (hs : Sound h start db) (workspace : String) :
    Keyset.scan Record.recordKey 64 (db.rows workspace) ((db.rows workspace).length + 1) start =
      db.rows workspace :=
  Keyset.scan_eq (by decide) (Keyset.inOrder_pairwise_le _ _) (hs.aligned workspace)
    (hs.nonempty workspace)

theorem Sound.scan_events (hs : Sound h start db) :
    Keyset.scan Event.id 500 db.sweptEvents (db.sweptEvents.length + 1) start = db.sweptEvents := by
  have hids : ((db.events.filter Event.swept).map Event.id).Nodup :=
    ((Keyset.perm_inOrder Event.id _).map Event.id).nodup_iff.mp hs.ids.1
  exact Keyset.scan_eq (by decide) (Keyset.inOrder_pairwise_le _ _)
    (Keyset.aligned_of_pairwise (Keyset.inOrder_pairwise hids)) hs.ids.2

/-- **Every reference is found**, in the events or in the records of its
workspace. -/
theorem Sound.found (hs : Sound h start db) (href : db.Referenced workspace key) :
    key ∈ db.offloadedEventReferences start ++ db.recordReferences start workspace := by
  have hkey := hs.findable href
  rcases href with ⟨record, hrecord, hworkspace, hfield, hmem⟩ | ⟨event, hevent, hmem⟩
  · apply mem_append_right _
    rw [Database.recordReferences, hs.scan_rows]
    refine mem_flatMap.mpr ⟨record, ?_, mem_offloadedKeys_text hkey hmem⟩
    rw [Database.rows, (Keyset.perm_inOrder _ _).mem_iff, mem_filter]
    exact ⟨hrecord, decide_eq_true ⟨hworkspace, hfield⟩⟩
  · apply mem_append_left _
    rw [Database.offloadedEventReferences, hs.scan_events]
    refine mem_flatMap.mpr ⟨event, ?_, ?_⟩
    · rw [Database.sweptEvents, (Keyset.perm_inOrder _ _).mem_iff, mem_filter]
      exact ⟨hevent, hs.events event hevent (ne_nil_of_mem hmem)⟩
    · rw [Event.references] at hmem
      cases hvalues : event.previousValues with
      | none =>
        rw [hvalues] at hmem
        cases hmem
      | some values =>
        rw [hvalues] at hmem
        exact mem_offloadedKeys_text hkey hmem

/-- What a database holds besides the bodies. -/
def Database.SameRows (db db' : Database κ) : Prop :=
  db'.records = db.records ∧ db'.events = db.events

theorem Database.SameRows.recordReferences (hsame : db.SameRows db') (start : κ)
    (workspace : String) :
    db'.recordReferences start workspace = db.recordReferences start workspace := by
  simp [Database.recordReferences, Database.rows, hsame.1]

omit [LinearOrder κ] in
theorem Database.SameRows.referenced (hsame : db.SameRows db') :
    db'.Referenced workspace key ↔ db.Referenced workspace key := by
  simp only [Database.Referenced, hsame.1, hsame.2]

theorem stored_sweepWorkspaceContent {now grace : Int} {eventReferences : List (List Char)}
    {swept : String} (hstored : db.Stored workspace key)
    (hfound : key ∈ eventReferences ++ db.recordReferences start workspace) :
    (db.sweepWorkspaceContent start now grace eventReferences swept).Stored workspace key := by
  obtain ⟨blob, hblob, hworkspace, hkey⟩ := hstored
  by_cases hswept : blob.workspace = swept
  · obtain rfl : workspace = swept := hworkspace.symm.trans hswept
    refine ⟨{ blob with orphaned := 0 }, mem_filterMap.mpr ⟨blob, hblob, ?_⟩, hworkspace, hkey⟩
    rw [if_pos hswept, Blob.sweep, if_pos (hkey ▸ hfound)]
  · exact ⟨blob, mem_filterMap.mpr ⟨blob, hblob, if_neg hswept⟩, hworkspace, hkey⟩

theorem stored_foldl {now grace : Int} {eventReferences : List (List Char)}
    (workspaces : List String) (hsame : db.SameRows db') (hstored : db'.Stored workspace key)
    (hfound : key ∈ eventReferences ++ db.recordReferences start workspace) :
    let last := workspaces.foldl
      (fun db workspace => db.sweepWorkspaceContent start now grace eventReferences workspace) db'
    db.SameRows last ∧ last.Stored workspace key := by
  induction workspaces generalizing db' with
  | nil => exact ⟨hsame, hstored⟩
  | cons first workspaces ih =>
    refine ih ⟨hsame.1, hsame.2⟩ (stored_sweepWorkspaceContent hstored ?_)
    rwa [hsame.recordReferences]

/-- **Sweeps.**  However many sweeps run, with whatever times and periods of grace, a
body that a record of its workspace or an event refers to stays. -/
theorem sweeps_keep (h : ContentHash) (start : κ)
    (hrun : Reaches (step start) (fun db _ => Sound h start db) db db')
    (href : db.Referenced workspace key) (hstored : db.Stored workspace key) :
    db'.Stored workspace key := by
  have hkept : db.SameRows db' ∧ db'.Stored workspace key := by
    refine hrun.invariant (P := fun db' => db.SameRows db' ∧ db'.Stored workspace key)
      (fun middle l next hmiddle hs hstep => ?_) ⟨⟨rfl, rfl⟩, hstored⟩
    obtain rfl := some.inj hstep
    obtain ⟨hsame, hstored⟩ :=
      stored_foldl _ ⟨rfl, rfl⟩ hmiddle.2 (hs.found (hmiddle.1.referenced.mpr href))
    exact ⟨⟨hsame.1.trans hmiddle.1.1, hsame.2.trans hmiddle.1.2⟩, hstored⟩
  exact hkept.2

end Sweeps

/-! ## Sweeps that keep, and sweeps that do not -/

/-- A version long enough to be offloaded. -/
def longBody : List Char :=
  "\x7b\"content\":\"".toList ++ replicate 1024 'a' ++ "\"\x7d".toList

/-- With the digest of `longBody`, the only text that is hashed here. -/
def longBodyHash : ContentHash :=
  ⟨fun _ => "267c049c1ee61cbbe8d9030f8f1dd291".toList, fun _ => forall_mem_of_all (by decide)⟩

def offloaded (key : List Char) : Tree :=
  .object [("_offloaded".toList, .object [("body".toList, .object [("key".toList, .string key)])])]

def versionKey (documentID : List Char) : List Char :=
  revisionBlobKey longBodyHash documentID ['v'] longBody

/-- A workspace with one document, whose version is offloaded, and with a body that
nobody refers to. -/
def oneDocument : Database String where
  records := [⟨"w", .documents, "d", offloaded (versionKey ['d'])⟩]
  events := []
  blobs := [⟨"w", versionKey ['d'], 0, 0⟩, ⟨"w", versionKey ['e'], 0, 0⟩]

theorem rows_oneDocument (workspace : String) :
    oneDocument.rows workspace = [] ∨ oneDocument.rows workspace = oneDocument.records := by
  by_cases hw : "w" = workspace
  · subst hw
    exact .inr rfl
  · refine .inl ?_
    rw [Database.rows, show oneDocument.records.filter _ = [] from filter_eq_nil_iff.mpr ?_]
    · rfl
    · intro record hrecord
      obtain rfl := mem_singleton.mp hrecord
      exact fun h => hw (of_decide_eq_true h).1

theorem sound_oneDocument {db : Database String} (hrecords : db.records = oneDocument.records)
    (hevents : db.events = []) : Sound longBodyHash "" db := by
  have hrows : ∀ workspace, db.rows workspace = [] ∨ db.rows workspace = oneDocument.records := by
    intro workspace
    rw [Database.rows, hrecords]
    exact rows_oneDocument workspace
  have hswept : db.sweptEvents = [] := by
    rw [Database.sweptEvents, hevents]
    rfl
  refine ⟨fun workspace key href => ?_, ?_, ?_, fun workspace record hrecord => ?_,
    fun workspace i a b _ ha hb => ?_⟩
  · rcases href with ⟨record, hrecord, _, _, hkey⟩ | ⟨event, hevent, _⟩
    · rw [hrecords] at hrecord
      obtain rfl := mem_singleton.mp hrecord
      refine ⟨.revision ['d'] ['v'] longBody, ?_, .inl (forall_mem_of_all (by decide))⟩
      exact mem_singleton.mp hkey
    · rw [hevents] at hevent
      cases hevent
  · rw [hevents]
    exact nofun
  · rw [hswept]
    exact ⟨nodup_nil, nofun⟩
  · rcases hrows workspace with h | h <;> rw [h] at hrecord
    · cases hrecord
    · obtain rfl := mem_singleton.mp hrecord
      decide
  · rcases hrows workspace with h | h <;> rw [h] at hb <;> cases hb

/-- Two sweeps mark and delete the body that nobody refers to, and keep the
other. -/
theorem sweeps_keep_oneDocument :
    ∃ db : Database String, db.blobs.map Blob.key = [versionKey ['d']] ∧
      db.Stored "w" (versionKey ['d']) := by
  have href : oneDocument.Referenced "w" (versionKey ['d']) :=
    .inl ⟨_, mem_cons_self, rfl, rfl, by decide⟩
  have hfirst : Reaches (step "") (fun db _ => Sound longBodyHash "" db) oneDocument
      (oneDocument.sweepOffloadedContent "" 10 5) :=
    (Reaches.refl oneDocument).snoc (a := ⟨10, 5⟩) (sound_oneDocument rfl rfl) rfl
  have hrun : Reaches (step "") (fun db _ => Sound longBodyHash "" db) oneDocument
      ((oneDocument.sweepOffloadedContent "" 10 5).sweepOffloadedContent "" 100 5) :=
    hfirst.snoc (a := ⟨100, 5⟩) (sound_oneDocument rfl rfl) rfl
  exact ⟨_, by decide +kernel, sweeps_keep longBodyHash "" hrun href ⟨_, mem_cons_self, rfl, rfl⟩⟩

def manyKeys : List String :=
  ["a0", "a1", "a2", "a3", "a4", "a5", "a6", "a7", "b0", "b1", "b2", "b3", "b4", "b5", "b6", "b7",
    "c0", "c1", "c2", "c3", "c4", "c5", "c6", "c7", "d0", "d1", "d2", "d3", "d4", "d5", "d6", "d7",
    "e0", "e1", "e2", "e3", "e4", "e5", "e6", "e7", "f0", "f1", "f2", "f3", "f4", "f5", "f6", "f7",
    "g0", "g1", "g2", "g3", "g4", "g5", "g6", "g7", "h0", "h1", "h2", "h3", "h4", "h5", "h6", "h7"]

/-- The last of 64 documents shares its key with an entry of the trash, which refers
to a body. -/
def sharedKey : Database String where
  records := (manyKeys.map fun key => ⟨"w", .documents, key, .object []⟩) ++
    [⟨"w", .trash, "h7", offloaded (versionKey ['d'])⟩]
  events := []
  blobs := [⟨"w", versionKey ['d'], 0, 0⟩]

def escapedID : Database String where
  records := [⟨"w", .documents, "<", offloaded (versionKey ['<'])⟩]
  events := []
  blobs := [⟨"w", versionKey ['<'], 0, 0⟩]

/-- Two sweeps delete a body that an entry of the trash refers to, as a page of the
scan ends before the entry, and one that a document refers to whose id is escaped in
its text. -/
theorem sweeps_delete_referenced :
    (sharedKey.Referenced "w" (versionKey ['d']) ∧ sharedKey.Stored "w" (versionKey ['d']) ∧
      ∃ db, Reaches (step "") Run.Unrestricted sharedKey db ∧
        ¬ db.Stored "w" (versionKey ['d'])) ∧
    escapedID.Referenced "w" (versionKey ['<']) ∧ escapedID.Stored "w" (versionKey ['<']) ∧
      ∃ db, Reaches (step "") Run.Unrestricted escapedID db ∧
        ¬ db.Stored "w" (versionKey ['<']) := by
  have hswept : ∀ (start : Database String) {key}, ((Run.exec (step "") Run.Unrestricted
      [⟨10, 5⟩, ⟨100, 5⟩] start).any fun db => db.blobs = []) = true →
      ∃ db, Reaches (step "") Run.Unrestricted start db ∧ ¬ db.Stored "w" key := by
    intro start key h
    obtain ⟨db, hrun, hblobs⟩ := Run.exists_reaches _ _ h
    refine ⟨db, hrun, ?_⟩
    rintro ⟨blob, hblob, _⟩
    rw [hblobs] at hblob
    cases hblob
  refine ⟨⟨.inl ⟨_, mem_append_right _ mem_cons_self, rfl, rfl, by decide⟩,
    ⟨_, mem_cons_self, rfl, rfl⟩, ?_⟩,
    .inl ⟨_, mem_cons_self, rfl, rfl, by decide⟩, ⟨_, mem_cons_self, rfl, rfl⟩, ?_⟩
  · exact hswept sharedKey (by decide +kernel)
  · exact hswept escapedID (by decide +kernel)

end Flow.Ports.ContentSweep
