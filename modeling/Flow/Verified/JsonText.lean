import Mathlib.Algebra.Order.Ring.Nat
import Mathlib.Data.List.Basic

/-!
# JSON as text

How `encoding/json` writes a string: a quote, each character in its escaped form,
a quote.  Quotes and backslashes are escaped, and so are control characters, the
characters that HTML gives a meaning, and the two line separators.

`Tree.text` is the compact text of a value.  `Lexing` follows the quotes of a
text: outside of strings there are no letters but those of the literals, so that a
place outside of a string is never in the middle of something that looks like a
member.  `findAll` takes the matches of a pattern from left to right, each after
the end of the one before, as `FindAllSubmatch` does.
-/

namespace Flow.Verified.JsonText

open List Option

/-- A fact about the characters of a text, checked one by one. The instance for all characters
would walk through all there are. -/
theorem forall_mem_of_all {P : Char → Prop} [DecidablePred P] {text : List Char}
    (h : text.all (fun c => decide (P c))) : ∀ c ∈ text, P c :=
  fun c hc => of_decide_eq_true (all_eq_true.mp h c hc)

def escape (c : Char) : List Char :=
  if c = '"' ∨ c = '\\' then ['\\', c]
  else if c = '\x08' then ['\\', 'b']
  else if c = '\x0c' then ['\\', 'f']
  else if c = '\n' then ['\\', 'n']
  else if c = '\r' then ['\\', 'r']
  else if c = '\t' then ['\\', 't']
  else if c.toNat < 0x20 ∨ c = '<' ∨ c = '>' ∨ c = '&' then
    ['\\', 'u', '0', '0', (c.toNat / 16).digitChar, (c.toNat % 16).digitChar]
  else if c.toNat = 0x2028 ∨ c.toNat = 0x2029 then
    ['\\', 'u', '2', '0', '2', (c.toNat % 16).digitChar]
  else [c]

def byteSize (text : List Char) : Nat := (text.map Char.utf8Size).sum

@[simp] theorem byteSize_nil : byteSize [] = 0 := rfl

@[simp] theorem byteSize_append (a b : List Char) :
    byteSize (a ++ b) = byteSize a + byteSize b := by
  simp [byteSize]

theorem byteSize_flatMap_replicate (f : Char → List Char) (n : Nat) (c : Char) :
    byteSize ((replicate n c).flatMap f) = n * byteSize (f c) := by
  induction n with
  | zero => simp
  | succ n ih =>
    rw [replicate_succ, flatMap_cons, byteSize_append, ih, Nat.succ_mul, Nat.add_comm]

/-- The characters of numbers, `true`, `false` and `null`. -/
def literalChars : List Char := "0123456789+-.eEtrufalsn".toList

/-- A literal other than a string. -/
structure Literal where
  chars : List Char
  plain : ∀ c ∈ chars, c ∈ literalChars

inductive Tree where
  | literal (value : Literal)
  | string (value : List Char)
  | array (items : List Tree)
  | object (members : List (List Char × Tree))

def quote (value : List Char) : List Char := '"' :: (value.flatMap escape ++ ['"'])

mutual

def Tree.text : Tree → List Char
  | .literal value => value.chars
  | .string value => quote value
  | .array items => '[' :: (Tree.itemsText [] items ++ [']'])
  | .object members => '\x7b' :: (Tree.membersText [] members ++ ['\x7d'])

def Tree.itemsText (separator : List Char) : List Tree → List Char
  | [] => []
  | item :: items => separator ++ item.text ++ Tree.itemsText [','] items

def Tree.membersText (separator : List Char) : List (List Char × Tree) → List Char
  | [] => []
  | (name, value) :: members =>
    separator ++ (quote name ++ ':' :: value.text) ++ Tree.membersText [','] members

end

/-! ## Inside and outside of strings -/

/-- Where a character of a text is. -/
inductive Lexing where
  | outside
  | inside
  | escaped
  /-- A letter that no literal has, outside of a string. -/
  | stray
deriving DecidableEq, Repr

def Lexing.next : Lexing → Char → Lexing
  | .outside, c => if c = '"' then .inside else if c = 'k' ∨ c = '\\' then .stray else .outside
  | .inside, c => if c = '"' then .outside else if c = '\\' then .escaped else .inside
  | .escaped, _ => .inside
  | .stray, _ => .stray

def lex (state : Lexing) (text : List Char) : Lexing := text.foldl Lexing.next state

@[simp] theorem lex_nil (state : Lexing) : lex state [] = state := rfl

@[simp] theorem lex_cons (state : Lexing) (c : Char) (text : List Char) :
    lex state (c :: text) = lex (state.next c) text := rfl

@[simp] theorem lex_append (state : Lexing) (a b : List Char) :
    lex state (a ++ b) = lex (lex state a) b :=
  foldl_append

theorem lex_inside {text : List Char} (h : ∀ c ∈ text, c ≠ '"' ∧ c ≠ '\\') :
    lex .inside text = .inside := by
  induction text with
  | nil => rfl
  | cons c text ih =>
    obtain ⟨hquote, hslash⟩ := h c mem_cons_self
    rw [lex_cons, Lexing.next, if_neg hquote, if_neg hslash]
    exact ih fun d hd => h d (mem_cons_of_mem _ hd)

theorem digitChar_plain : ∀ n < 16, n.digitChar ≠ '"' ∧ n.digitChar ≠ '\\' := by decide

theorem lex_digits {a b : Char} {m n : Nat} (ha : a ≠ '"' ∧ a ≠ '\\') (hb : b ≠ '"' ∧ b ≠ '\\')
    (hm : m < 16) (hn : n < 16) :
    lex .escaped ['u', a, b, m.digitChar, n.digitChar] = .inside := by
  have hinside : lex .inside [a, b, m.digitChar, n.digitChar] = .inside := by
    apply lex_inside
    simp only [forall_mem_cons]
    exact ⟨ha, hb, digitChar_plain m hm, digitChar_plain n hn, nofun⟩
  exact hinside

theorem lex_escape (c : Char) : lex .inside (escape c) = .inside := by
  unfold escape
  split_ifs with hquote _ _ _ _ _ hcontrol hline
  · rfl
  · rfl
  · rfl
  · rfl
  · rfl
  · rfl
  · have hsmall : c.toNat < 0x40 := by
      rcases hcontrol with h | rfl | rfl | rfl
      · omega
      · decide
      · decide
      · decide
    exact lex_digits (by decide) (by decide) (by omega) (Nat.mod_lt _ (by decide))
  · exact lex_digits (m := 2) (by decide) (by decide) (by decide) (Nat.mod_lt _ (by decide))
  · refine lex_inside fun d hd => ?_
    obtain rfl := mem_singleton.mp hd
    exact not_or.mp hquote

theorem lex_quote (value : List Char) : lex .outside (quote value) = .outside := by
  have hinside : lex .inside (value.flatMap escape) = .inside := by
    induction value with
    | nil => rfl
    | cons c value ih => rw [flatMap_cons, lex_append, lex_escape, ih]
  rw [quote, lex_cons, show Lexing.outside.next '"' = .inside from rfl, lex_append, hinside]
  rfl

theorem next_literal : ∀ c ∈ literalChars, Lexing.outside.next c = .outside :=
  forall_mem_of_all (by decide)

theorem lex_literal (value : Literal) : lex .outside value.chars = .outside := by
  obtain ⟨chars, hplain⟩ := value
  induction chars with
  | nil => rfl
  | cons c chars ih =>
    rw [lex_cons, next_literal c (hplain c mem_cons_self)]
    exact ih fun d hd => hplain d (mem_cons_of_mem _ hd)

def Separates (separator : List Char) : Prop := lex .outside separator = .outside

theorem separates_nil : Separates [] := rfl

theorem separates_comma : Separates [','] := rfl

mutual

/-- The text of a value ends outside of strings, where it began. -/
theorem lex_text : ∀ tree : Tree, lex .outside tree.text = .outside
  | .literal value => by
      exact lex_literal value
  | .string value => by
      exact lex_quote value
  | .array items => by
      rw [Tree.text, lex_cons, lex_append, show Lexing.outside.next '[' = .outside from rfl,
        lex_itemsText separates_nil items]
      rfl
  | .object members => by
      rw [Tree.text, lex_cons, lex_append, show Lexing.outside.next '\x7b' = .outside from rfl,
        lex_membersText separates_nil members]
      rfl

theorem lex_itemsText {separator : List Char} (hsep : Separates separator) :
    ∀ items : List Tree, lex .outside (Tree.itemsText separator items) = .outside
  | [] => by
      rfl
  | item :: items => by
      rw [Tree.itemsText, lex_append, lex_append, hsep, lex_text item,
        lex_itemsText separates_comma items]

theorem lex_membersText {separator : List Char} (hsep : Separates separator) :
    ∀ members : List (List Char × Tree),
      lex .outside (Tree.membersText separator members) = .outside
  | [] => by
      rfl
  | (name, value) :: members => by
      rw [Tree.membersText, lex_append, lex_append, hsep, lex_append, lex_quote, lex_cons,
        show Lexing.outside.next ':' = .outside from rfl, lex_text value,
        lex_membersText separates_comma members]

end

/-! ## Parts of a text -/

def Occurs (part text : List Char) : Prop :=
  ∃ before after, text = before ++ part ++ after ∧ lex .outside before = .outside

theorem Occurs.trans {a b c : List Char} (hab : Occurs a b) (hbc : Occurs b c) : Occurs a c := by
  obtain ⟨before, after, rfl, hlex⟩ := hab
  obtain ⟨before', after', rfl, hlex'⟩ := hbc
  refine ⟨before' ++ before, after ++ after', ?_, ?_⟩
  · simp
  · rw [lex_append, hlex', hlex]

theorem Occurs.append {part text : List Char} (h : Occurs part text) (before after : List Char)
    (hlex : lex .outside before = .outside) : Occurs part (before ++ text ++ after) :=
  h.trans ⟨before, after, rfl, hlex⟩

variable {name separator : List Char} {items : List Tree} {item value : Tree}
  {members : List (List Char × Tree)}

theorem occurs_itemsText (hsep : Separates separator) (hitem : item ∈ items) :
    Occurs item.text (Tree.itemsText separator items) := by
  induction items generalizing separator with
  | nil => cases hitem
  | cons first items ih =>
    rcases mem_cons.mp hitem with rfl | hitem
    · exact ⟨separator, _, rfl, hsep⟩
    · have hlex : lex .outside (separator ++ first.text) = .outside := by
        rw [lex_append, hsep, lex_text]
      have hrest := (ih separates_comma hitem).append (separator ++ first.text) [] hlex
      rwa [append_nil] at hrest

theorem occurs_membersText (hsep : Separates separator) (hmember : (name, value) ∈ members) :
    Occurs (quote name ++ ':' :: value.text) (Tree.membersText separator members) := by
  induction members generalizing separator with
  | nil => cases hmember
  | cons first members ih =>
    obtain ⟨firstName, firstValue⟩ := first
    rcases mem_cons.mp hmember with heq | hmember
    · cases heq
      exact ⟨separator, _, rfl, hsep⟩
    · have hlex : lex .outside (separator ++ (quote firstName ++ ':' :: firstValue.text)) =
          .outside := by
        rw [lex_append, hsep, lex_append, lex_quote, lex_cons,
          show Lexing.outside.next ':' = .outside from rfl, lex_text]
      have hrest := (ih separates_comma hmember).append
        (separator ++ (quote firstName ++ ':' :: firstValue.text)) [] hlex
      rwa [append_nil] at hrest

theorem occurs_item (hitem : item ∈ items) : Occurs item.text (Tree.array items).text := by
  exact (occurs_itemsText separates_nil hitem).append ['['] [']'] rfl

theorem occurs_member (hmember : (name, value) ∈ members) :
    Occurs (quote name ++ ':' :: value.text) (Tree.object members).text := by
  exact (occurs_membersText separates_nil hmember).append ['\x7b'] ['\x7d'] rfl

theorem occurs_value (hmember : (name, value) ∈ members) :
    Occurs value.text (Tree.object members).text := by
  refine Occurs.trans ⟨quote name ++ [':'], [], ?_, ?_⟩ (occurs_member hmember)
  · rw [append_nil, append_assoc, singleton_append]
  · rw [lex_append, lex_quote]
    rfl

section FindAll

variable {α : Type}

/-- The matches of a pattern, which gives what it matches at the start of a text and how much
that takes. The first argument is what is left of the last match. -/
def findAll (pattern : List Char → Option (α × Nat)) : Nat → List Char → List α
  | _, [] => []
  | left + 1, _ :: text => findAll pattern left text
  | 0, c :: text =>
    match pattern (c :: text) with
    | some (found, size) => found :: findAll pattern (size - 1) text
    | none => findAll pattern 0 text

/-- No match that starts in the first part of a text reaches into the second. -/
def Apart (pattern : List Char → Option (α × Nat)) (before text : List Char) : Prop :=
  ∀ start, start ≠ [] → start <:+ before → ∀ found size,
    pattern (start ++ text) = some (found, size) → size ≤ start.length

variable {pattern : List Char → Option (α × Nat)}

/-- What is found in the second of two parts that are apart is found in both. -/
theorem findAll_append {before text : List Char} (h : Apart pattern before text) {left : Nat}
    (hleft : left ≤ before.length) {found : α} (hfound : found ∈ findAll pattern 0 text) :
    found ∈ findAll pattern left (before ++ text) := by
  induction before generalizing left with
  | nil =>
    obtain rfl := Nat.le_zero.mp hleft
    exact hfound
  | cons c before ih =>
    have hrest : Apart pattern before text := fun start hne hsuffix =>
      h start hne (hsuffix.trans (suffix_cons c before))
    cases left with
    | succ left =>
      exact ih hrest (Nat.le_of_succ_le_succ hleft)
    | zero =>
      rw [cons_append, findAll]
      split
      · rename_i other size hmatch
        have hsize :=
          h (c :: before) (cons_ne_nil _ _) (suffix_refl _) other size hmatch
        rw [length_cons] at hsize
        exact mem_cons_of_mem _ (ih hrest (by omega))
      · exact ih hrest (Nat.zero_le _)

/-- **Scanning.**  A match is found when no earlier one reaches into it. -/
theorem mem_findAll {before text : List Char} (h : Apart pattern before text) {found : α}
    {size : Nat} (hne : text ≠ []) (hmatch : pattern text = some (found, size)) :
    found ∈ findAll pattern 0 (before ++ text) := by
  apply findAll_append h (Nat.zero_le _)
  cases text with
  | nil => exact absurd rfl hne
  | cons c text =>
    rw [findAll, hmatch]
    exact mem_cons_self

end FindAll

end Flow.Verified.JsonText
