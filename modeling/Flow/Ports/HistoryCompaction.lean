import Flow.Verified.Utf16
import Mathlib.Data.List.Forall2
import Mathlib.Data.List.Infix

/-!
# Compaction of an agent's history

Before a model call long tool results of earlier requests are cut, and while the history is
over its budget its oldest request is dropped: everything before the second user message.
A tool call and its results lie within one request, so no cut comes between them.  The note
on what was cut can be longer than what it stands for (`result_grows`).
-/

namespace Flow.Ports.HistoryCompaction

open Flow.Verified.Utf16 List

inductive Output (α : Type) where
  | string (text : Text)
  | text (text : Text)
  | other (content : α)
deriving DecidableEq

/-- The other items have an id when they are calls, or results of other kinds. -/
inductive Item (α : Type) where
  | user (content : α)
  | functionCallResult (callID : String) (output : Output α)
  | other (callID : Option String) (content : α)
deriving DecidableEq

def Output.text? {α : Type} : Output α → Option Text
  | string content | text content => some content
  | other _ => none

def elisionNote (more : Int) : Text :=
  units (s!"\n… [{more} more characters from an earlier turn were elided; " ++
    "call the tool again if you need them]")

structure CompactionOptions where
  maxOldResultChars : Nat
  budgetTokens : Int
  keepRequests : Nat

section

variable {α : Type}

namespace Item

def isUser : Item α → Bool
  | user _ => true
  | _ => false

def callID? : Item α → Option String
  | user _ => none
  | functionCallResult callID _ => some callID
  | other callID _ => callID

/-- What becomes of an item of an earlier request. -/
def elide (options : CompactionOptions) (item : Item α) : Item α :=
  match item with
  | functionCallResult callID (.string text) | functionCallResult callID (.text text) =>
    if text.length ≤ options.maxOldResultChars then item
    else
      functionCallResult callID
        (.text (text.take 1500 ++ elisionNote ((text.length : Int) - 1500)))
  | _ => item

end Item

/-- An item is before the last user message when some user message follows it. -/
def elideOlder (options : CompactionOptions) : List (Item α) → List (Item α)
  | [] => []
  | item :: rest =>
    (if rest.any Item.isUser then item.elide options else item) :: elideOlder options rest

/-- The items from the second user message on. -/
def secondRequest (items : List (Item α)) : List (Item α) :=
  ((items.dropWhile (!·.isUser)).drop 1).dropWhile (!·.isUser)

def dropRequests (estimateTokens : List (Item α) → Int) (options : CompactionOptions) :
    Nat → List (Item α) → List (Item α)
  | 0, items => items
  | rounds + 1, items =>
    if estimateTokens items > options.budgetTokens ∧
        items.countP Item.isUser > options.keepRequests then
      dropRequests estimateTokens options rounds (secondRequest items)
    else items

/-- The loop has a round for every user message. -/
def compactHistory (estimateTokens : List (Item α) → Int) (options : CompactionOptions)
    (input : List (Item α)) : List (Item α) :=
  let items := elideOlder options input
  dropRequests estimateTokens options (items.countP Item.isUser) items

/-- No call has results on the other side of a user message. -/
def Separated (history : List (Item α)) : Prop :=
  ∀ i < history.length, (history.map Item.isUser).getD i false →
    ∀ id ∈ (history.map Item.callID?).take i, id ≠ none → id ∉ (history.map Item.callID?).drop i

/-- What an item of an earlier request may become: a tool result with a long text keeps its
first 1,500 characters, and a note says how many more it had. -/
inductive Cut (maxOldResultChars : Nat) : Item α → Item α → Prop
  | same (item : Item α) : Cut maxOldResultChars item item
  | result (callID : String) {output : Output α} {text : Text} :
      output.text? = some text → maxOldResultChars < text.length →
      Cut maxOldResultChars (.functionCallResult callID output) (.functionCallResult callID
        (.text (text.take 1500 ++ elisionNote ((text.length : Int) - 1500))))

/-- A user message is the first of the items. -/
def Begins (items : List (Item α)) : Prop := ∃ first rest, items = first :: rest ∧ first.isUser

/-- What the loop may leave of some items. -/
def Leaves (estimateTokens : List (Item α) → Int) (options : CompactionOptions)
    (items kept : List (Item α)) : Prop :=
  (∃ front, items = front ++ kept ∧
    (front = [] ∨ Begins kept ∧ options.keepRequests ≤ kept.countP Item.isUser)) ∧
  (estimateTokens kept ≤ options.budgetTokens ∨ kept.countP Item.isUser ≤ options.keepRequests)

variable {estimateTokens : List (Item α) → Int} {options : CompactionOptions}
  {items history : List (Item α)}

theorem elide_cut (item : Item α) :
    Cut options.maxOldResultChars item (item.elide options) := by
  have hlong {callID : String} {output : Output α} {text : Text}
      (htext : output.text? = some text) : Cut options.maxOldResultChars
      (.functionCallResult callID output)
      (if text.length ≤ options.maxOldResultChars then .functionCallResult callID output
      else .functionCallResult callID
        (.text (text.take 1500 ++ elisionNote ((text.length : Int) - 1500)))) := by
    split
    · exact .same _
    · exact .result callID htext (by omega)
  match item with
  | .functionCallResult _ (.string _) => exact hlong rfl
  | .functionCallResult _ (.text _) => exact hlong rfl
  | .functionCallResult _ (.other _) | .user _ | .other _ _ => exact .same _

theorem Cut.shape {limit : Nat} {item cut : Item α} (h : Cut limit item cut) :
    cut.isUser = item.isUser ∧ cut.callID? = item.callID? := by
  cases h <;> exact ⟨rfl, rfl⟩

theorem elideOlder_eq (options : CompactionOptions) (items : List (Item α)) :
    ∃ older last, items = older ++ last ∧
      elideOlder options items = older.map (Item.elide options) ++ last ∧
      (∀ item ∈ last.tail, ¬ item.isUser) ∧ (older ≠ [] → Begins last) := by
  induction items with
  | nil => exact ⟨[], [], rfl, rfl, nofun, nofun⟩
  | cons item rest ih =>
    obtain ⟨older, last, rfl, helide, hlast, hbegins⟩ := ih
    unfold elideOlder
    rw [helide]
    by_cases hany : (older ++ last).any Item.isUser
    · rw [if_pos hany]
      refine ⟨item :: older, last, rfl, rfl, hlast, fun _ => ?_⟩
      by_cases holder : older = []
      · subst holder
        obtain ⟨user, hmem, huser⟩ := any_eq_true.mp hany
        cases last with
        | nil => cases hmem
        | cons first rest =>
          rcases mem_cons.mp hmem with rfl | hmem
          · exact ⟨user, rest, rfl, huser⟩
          · exact absurd huser (hlast user hmem)
      · exact hbegins holder
    · rw [if_neg hany]
      have hnil : older = [] := by
        by_contra holder
        obtain ⟨user, rest, rfl, huser⟩ := hbegins holder
        exact hany (any_eq_true.mpr ⟨user, by simp, huser⟩)
      subst hnil
      refine ⟨[], item :: last, rfl, rfl, fun user hmem huser => ?_, nofun⟩
      exact hany (any_eq_true.mpr ⟨user, hmem, huser⟩)

theorem dropWhile_spec (h : 0 < items.countP Item.isUser) : ∃ front user rest,
    items = front ++ user :: rest ∧ user.isUser ∧ front.countP Item.isUser = 0 ∧
      items.dropWhile (!·.isUser) = user :: rest := by
  induction items with
  | nil => simp at h
  | cons item items ih =>
    by_cases huser : item.isUser
    · exact ⟨[], item, items, rfl, huser, rfl, by simp [huser]⟩
    · rw [countP_cons_of_neg huser] at h
      obtain ⟨front, user, rest, rfl, huser', hfront, hdrop⟩ := ih h
      exact ⟨item :: front, user, rest, rfl, huser', by simp [huser, hfront],
        by simp [huser, hdrop]⟩

theorem secondRequest_spec (h : 1 < items.countP Item.isUser) : ∃ front,
    items = front ++ secondRequest items ∧ Begins (secondRequest items) ∧
      (secondRequest items).countP Item.isUser + 1 = items.countP Item.isUser := by
  obtain ⟨front, user, rest, rfl, huser, hfront, hdrop⟩ := dropWhile_spec (Nat.zero_lt_of_lt h)
  rw [countP_append, hfront, countP_cons_of_pos huser] at h ⊢
  have hrest : 0 < rest.countP Item.isUser := by omega
  obtain ⟨front', user', rest', rfl, huser', hfront', hdrop'⟩ := dropWhile_spec hrest
  have hsecond : secondRequest (front ++ user :: (front' ++ user' :: rest')) = user' :: rest' := by
    unfold secondRequest
    rw [hdrop]
    exact hdrop'
  rw [hsecond, countP_append, hfront']
  exact ⟨front ++ user :: front', by simp, ⟨user', rest', rfl, huser'⟩, by omega⟩

theorem dropRequests_spec (hkeep : 1 ≤ options.keepRequests) (rounds : Nat)
    (hrounds : items.countP Item.isUser ≤ rounds) :
    Leaves estimateTokens options items (dropRequests estimateTokens options rounds items) := by
  induction rounds generalizing items with
  | zero => exact ⟨⟨[], rfl, .inl rfl⟩, .inr (by unfold dropRequests; omega)⟩
  | succ rounds ih =>
    unfold dropRequests
    by_cases hover : estimateTokens items > options.budgetTokens ∧
        items.countP Item.isUser > options.keepRequests
    · rw [if_pos hover]
      obtain ⟨front, hitems, hbegins, hcount⟩ :=
        secondRequest_spec (Nat.lt_of_le_of_lt hkeep hover.2)
      obtain ⟨⟨later, hlater, hkept⟩, hend⟩ :=
        ih (show (secondRequest items).countP Item.isUser ≤ rounds by omega)
      refine ⟨⟨front ++ later, by rw [append_assoc, ← hlater, ← hitems], .inr ?_⟩, hend⟩
      rcases hkept with rfl | hkept
      · rw [nil_append] at hlater
        rw [← hlater]
        exact ⟨hbegins, by omega⟩
      · exact hkept
    · rw [if_neg hover]
      exact ⟨⟨[], rfl, .inl rfl⟩, by omega⟩

theorem Separated.elideOlder (h : Separated history) : Separated (elideOlder options history) := by
  obtain ⟨older, last, rfl, helide, -, -⟩ := elideOlder_eq options history
  have hmap {β : Type} (f : Item α → β) (hf : ∀ item, f (item.elide options) = f item) :
      (older.map (Item.elide options) ++ last).map f = (older ++ last).map f := by
    rw [map_append, map_append, map_map]
    congr 1
    exact map_congr_left fun item _ => hf item
  unfold Separated
  rw [helide, hmap _ fun item => (elide_cut item).shape.1,
    hmap _ fun item => (elide_cut item).shape.2,
    length_append, length_map, ← length_append]
  exact h

/-- **Compaction keeps a conversation valid**: it cuts results before the last request, and
drops a front of whole requests. -/
theorem compactHistory_keeps (hseparated : Separated history) (hkeep : 1 ≤ options.keepRequests) :
    let kept := compactHistory estimateTokens options history
    ∃ older last cut, history = older ++ last ∧ (∀ item ∈ last.tail, ¬ item.isUser) ∧
      (older ≠ [] → Begins last) ∧ Forall₂ (Cut options.maxOldResultChars) older cut ∧
      Leaves estimateTokens options (cut ++ last) kept ∧ last <:+ kept ∧
      ∀ front, cut ++ last = front ++ kept →
        ∀ id ∈ front.map Item.callID?, id ≠ none → id ∉ kept.map Item.callID? := by
  intro kept
  have hrun : Leaves estimateTokens options (elideOlder options history) kept :=
    dropRequests_spec hkeep _ (Nat.le_refl _)
  have hseparated := @Separated.elideOlder _ options _ hseparated
  obtain ⟨older, last, hhistory, helide, hlast, hbegins⟩ := elideOlder_eq options history
  rw [helide] at hrun hseparated
  have hcut : Forall₂ (Cut options.maxOldResultChars) older (older.map (Item.elide options)) :=
    forall₂_map_right_iff.mpr (forall₂_same.mpr fun item _ => elide_cut item)
  refine ⟨older, last, _, hhistory, hlast, hbegins, hcut, hrun, ?_⟩
  clear_value kept
  obtain ⟨⟨front, hitems, hfront⟩, -⟩ := hrun
  rw [hitems] at hseparated ⊢
  rcases hfront with rfl | ⟨⟨user, rest, rfl, huser⟩, -⟩
  · refine ⟨⟨_, hitems⟩, fun front hfront => ?_⟩
    rw [append_cancel_right hfront.symm]
    exact nofun
  · constructor
    · -- the first of the kept items is a user message, which the last request has only in front
      rcases suffix_or_suffix_of_suffix (suffix_append _ last) ⟨front, hitems.symm⟩ with
        h | ⟨before, rfl⟩
      · exact h
      · rcases before with _ | ⟨first, before⟩
        · exact suffix_rfl
        · exact absurd huser (hlast user (by simp))
    · intro front' hfront
      rw [← append_cancel_right hfront]
      have hcut := hseparated front.length
      rw [map_append, map_append, take_left' (length_map _), drop_left' (length_map _)] at hcut
      exact hcut (by simp) (by simp [huser])

/-- Three requests, the first two with a call and its result. -/
def threeRequests : List (Item Unit) :=
  [.user (), .other "c" (), .functionCallResult "c" (.string (units "one")),
    .user (), .other "d" (), .functionCallResult "d" (.string (units "two")), .user ()]

/-- The first of three requests is dropped, the result of the second is cut. -/
theorem keeps_second_request :
    let kept := compactHistory (fun items => items.length) ⟨2, 4, 1⟩ threeRequests
    kept = [.user (), .other "d" (),
        .functionCallResult "d" (.text (units "two" ++ elisionNote (-1497))), .user ()] ∧
      ∃ older last, threeRequests = older ++ last ∧ last <:+ kept := by
  refine ⟨by decide +kernel, ?_⟩
  obtain ⟨older, last, _, hhistory, -, -, -, -, hlast, -⟩ := @compactHistory_keeps Unit
    (fun items => items.length) ⟨2, 4, 1⟩ threeRequests
    (by unfold Separated; decide +kernel) (by decide)
  exact ⟨older, last, hhistory, hlast⟩

/-- With a small limit a cut result is longer than it was. -/
theorem result_grows :
    let kept := compactHistory (fun items => items.length) ⟨2, 7, 1⟩ threeRequests
    kept[2]? = some (.functionCallResult "c" (.text (units "one" ++ elisionNote (-1497)))) ∧
      (units "one").length < (units "one" ++ elisionNote (-1497)).length := by
  decide +kernel

end

end Flow.Ports.HistoryCompaction
