import Mathlib.Data.List.Basic
import Mathlib.Data.List.Nodup

/-!
# Putting numbered messages in order

A line hands out numbered messages in the order of their numbers.  It knows the
last number that it handed out; messages that came too early wait.  `release`
hands out the waiting messages that are next, and on request gives up the gap
before the lowest of them first.

`Releases` is all that a user of the line needs: what was handed out, in which
order, and what still waits.

The second part is about what a reader sees: a stream of messages in which a
marker starts the order anew (`Increasing`).
-/

namespace Flow.Verified.Reorder

open List Option

variable {α : Type}

/-! ## The line -/

/-- The last number that was handed out, and the messages that wait. -/
structure Line (α : Type) where
  last : Nat
  waiting : List (Nat × α)

def without (waiting : List (Nat × α)) (n : Nat) : List (Nat × α) :=
  waiting.filter fun entry => entry.1 ≠ n

def lowest : List (Nat × α) → Option (Nat × α)
  | [] => none
  | entry :: rest =>
    match lowest rest with
    | none => some entry
    | some other => if other.1 < entry.1 then some other else some entry

/-- A message takes the place of one with the same number. -/
def Line.wait (line : Line α) (n : Nat) (message : α) : Line α :=
  { line with waiting := without line.waiting n ++ [(n, message)] }

def Line.pass (line : Line α) (n : Nat) : Line α := ⟨n, without line.waiting n⟩

/-- The message to hand out: the next one, or the lowest when a gap may be given
up. -/
def Line.next (line : Line α) (skip : Bool) : Option (Nat × α) :=
  match line.waiting.find? fun entry => entry.1 = line.last + 1 with
  | some entry => some entry
  | none => if skip then lowest line.waiting else none

/-- Hands out messages while there is a next one; one gap is given up when `skip` is set. The
first argument bounds the messages that wait. -/
def release : Nat → Line α → Bool → List (Nat × α) × Line α
  | 0, line, _ => ([], line)
  | fuel + 1, line, skip =>
    match line.next skip with
    | none => ([], line)
    | some entry =>
      let later := release fuel (line.pass entry.1) (skip && entry.1 = line.last + 1)
      (entry :: later.1, later.2)

/-- Numbers are distinct and above the last one. -/
structure Line.Ahead (line : Line α) : Prop where
  nodup : (line.waiting.map Prod.fst).Nodup
  above : ∀ entry ∈ line.waiting, line.last < entry.1

/-- Numbers are distinct and the next one does not wait. -/
structure Line.Settled (line : Line α) : Prop extends line.Ahead where
  gap : ∀ entry ∈ line.waiting, entry.1 ≠ line.last + 1

/-- What handing out messages does: they come in order, and those that waited were handed out or
still wait. -/
structure Releases (before : Line α) (out : List (Nat × α)) (after : Line α) : Prop where
  increasing : out.Pairwise fun a b => a.1 < b.1
  above : ∀ entry ∈ out, before.last < entry.1
  upto : ∀ entry ∈ out, entry.1 ≤ after.last
  last : before.last ≤ after.last
  kept : ∀ entry ∈ before.waiting, entry ∈ out ∨ entry ∈ after.waiting
  ahead : after.Ahead

variable {waiting : List (Nat × α)} {n : Nat} {entry : Nat × α} {line : Line α}

theorem mem_without : entry ∈ without waiting n ↔ entry ∈ waiting ∧ entry.1 ≠ n := by
  simp [without]

theorem lowest_mem (h : lowest waiting = some entry) :
    entry ∈ waiting ∧ ∀ other ∈ waiting, entry.1 ≤ other.1 := by
  induction waiting generalizing entry with
  | nil => cases h
  | cons first rest ih =>
    simp only [lowest] at h
    split at h
    · rename_i hrest
      cases h
      cases rest with
      | nil => simp
      | cons second others =>
        simp only [lowest] at hrest
        split at hrest
        · cases hrest
        · split at hrest <;> cases hrest
    · rename_i other hrest
      obtain ⟨hmem, hle⟩ := ih hrest
      split at h
      · rename_i hlt
        cases h
        refine ⟨by simp [hmem], fun entry' hentry' => ?_⟩
        rcases mem_cons.1 hentry' with rfl | hrest'
        · exact Nat.le_of_lt hlt
        · exact hle entry' hrest'
      · cases h
        refine ⟨by simp, fun entry' hentry' => ?_⟩
        rcases mem_cons.1 hentry' with rfl | hrest'
        · exact Nat.le_refl _
        · have := hle entry' hrest'
          omega

theorem Line.next_spec {skip : Bool} (hahead : line.Ahead) (h : line.next skip = some entry) :
    entry ∈ line.waiting ∧ ∀ other ∈ line.waiting, entry.1 ≤ other.1 := by
  unfold Line.next at h
  split at h
  · rename_i found hfind
    cases h
    have hnext := find?_some hfind
    simp only [decide_eq_true_eq] at hnext
    refine ⟨mem_of_find?_eq_some hfind, fun other hother => ?_⟩
    have := hahead.above other hother
    omega
  · split at h
    · exact lowest_mem h
    · cases h

/-- Handing out the lowest message leaves the others ahead. -/
theorem Line.Ahead.pass (hahead : line.Ahead) (hlow : ∀ other ∈ line.waiting, n ≤ other.1) :
    (line.pass n).Ahead := by
  refine ⟨hahead.nodup.sublist (filter_sublist.map _), fun entry hentry => ?_⟩
  obtain ⟨hmem, hne⟩ := mem_without.1 hentry
  have := hlow entry hmem
  show n < entry.1
  omega

/-- What a release hands out, and what waits after it, has waited; when the bound is large
enough, the next message does not wait. -/
theorem release_spec (fuel : Nat) : ∀ (line : Line α) (skip : Bool), line.Ahead →
    Releases line (release fuel line skip).1 (release fuel line skip).2 ∧
      (∀ entry, entry ∈ (release fuel line skip).1 ∨ entry ∈ (release fuel line skip).2.waiting →
        entry ∈ line.waiting) ∧
      (line.waiting.length ≤ fuel → (release fuel line skip).2.Settled) := by
  induction fuel with
  | zero =>
    intro line skip hahead
    refine ⟨⟨.nil, by simp [release], by simp [release], Nat.le_refl _, by simp [release], hahead⟩,
      by simp [release], fun hfuel => ?_⟩
    have hnil : line.waiting = [] := length_eq_zero_iff.1 (by omega)
    exact ⟨hahead, by simp [release, hnil]⟩
  | succ fuel ih =>
    intro line skip hahead
    rw [release]
    split
    · rename_i hnext
      refine ⟨⟨.nil, by simp, by simp, Nat.le_refl _, by simp, hahead⟩, by simp, fun _ => ?_⟩
      refine ⟨hahead, fun entry hentry hkey => ?_⟩
      unfold Line.next at hnext
      split at hnext
      · cases hnext
      · rename_i hfind
        rw [find?_eq_none] at hfind
        exact hfind entry hentry (by simp [hkey])
    · rename_i entry hnext
      obtain ⟨hmem, hlow⟩ := line.next_spec hahead hnext
      have hlast : line.last < entry.1 := hahead.above entry hmem
      obtain ⟨hlater, hwaited, hsettles⟩ :=
        ih (line.pass entry.1) (skip && entry.1 = line.last + 1) (hahead.pass hlow)
      have hup : entry.1 ≤ _ := hlater.last
      refine ⟨⟨?_, ?_, ?_, ?_, ?_, hlater.ahead⟩, ?_, fun hfuel => hsettles ?_⟩
      · exact pairwise_cons.2 ⟨fun other hother => hlater.above other hother,
          hlater.increasing⟩
      · intro other hother
        rcases mem_cons.1 hother with rfl | hother
        · exact hlast
        · exact Nat.lt_trans hlast (hlater.above other hother)
      · intro other hother
        rcases mem_cons.1 hother with rfl | hother
        · exact hup
        · exact hlater.upto other hother
      · exact Nat.le_trans (Nat.le_of_lt hlast) hup
      · intro other hother
        by_cases hkey : other.1 = entry.1
        · rw [inj_on_of_nodup_map hahead.nodup hother hmem hkey]
          exact .inl mem_cons_self
        · rcases hlater.kept other (mem_without.2 ⟨hother, hkey⟩) with h | h
          · exact .inl (mem_cons_of_mem _ h)
          · exact .inr h
      · intro other hother
        rcases hother.imp_left mem_cons.1 with (rfl | hother) | hother
        · exact hmem
        · exact (mem_without.1 (hwaited other (.inl hother))).1
        · exact (mem_without.1 (hwaited other (.inr hother))).1
      · have hlt : (without line.waiting entry.1).length < line.waiting.length :=
          length_filter_lt_length_iff_exists.2 ⟨entry, hmem, by simp⟩
        show (without line.waiting entry.1).length ≤ fuel
        omega

theorem Line.Settled.wait (h : line.Settled) (hn : line.last + 1 < n) (message : α) :
    (line.wait n message).Settled := by
  have hmem : ∀ entry ∈ (line.wait n message).waiting, entry ∈ line.waiting ∨ entry.1 = n := by
    intro entry hentry
    rcases mem_append.1 hentry with hold | hnew
    · exact .inl (mem_without.1 hold).1
    · rw [mem_singleton] at hnew
      exact .inr (congrArg Prod.fst hnew)
  refine ⟨⟨?_, ?_⟩, ?_⟩
  · show ((without line.waiting n ++ [(n, message)]).map Prod.fst).Nodup
    rw [map_append, nodup_append]
    refine ⟨h.nodup.sublist (filter_sublist.map _), by simp, ?_⟩
    intro a ha b hb heq
    obtain ⟨entry, hentry, rfl⟩ := mem_map.1 ha
    simp only [map_cons, map_nil, mem_singleton] at hb
    exact (mem_without.1 hentry).2 (heq.trans hb)
  · intro entry hentry
    show line.last < entry.1
    rcases hmem entry hentry with hold | hnew
    · exact h.above entry hold
    · omega
  · intro entry hentry
    show entry.1 ≠ line.last + 1
    rcases hmem entry hentry with hold | hnew
    · exact h.gap entry hold
    · omega

/-! ## Streams with markers -/

section Stream

variable (seq : α → Nat) (marker : α → Bool)

/-- The last number since the last marker, after one more message.  A message
without a number has the number 0. -/
def advance (last : Nat) (message : α) : Nat :=
  if marker message then 0 else if seq message = 0 then last else seq message

/-- The last number since the last marker of a stream that goes on from `last`. -/
def lastFrom (last : Nat) (stream : List α) : Nat := stream.foldl (advance seq marker) last

def Follows (last : Nat) (message : α) : Prop :=
  marker message = true ∨ seq message = 0 ∨ last < seq message

/-- Between two markers the numbers strictly increase. -/
def Increasing : Nat → List α → Prop
  | _, [] => True
  | last, message :: rest =>
    Follows seq marker last message ∧ Increasing (advance seq marker last message) rest

variable {seq marker}

theorem lastFrom_append (last : Nat) (a b : List α) :
    lastFrom seq marker last (a ++ b) = lastFrom seq marker (lastFrom seq marker last a) b :=
  foldl_append

theorem increasing_append {last : Nat} {a b : List α} : Increasing seq marker last (a ++ b) ↔
      Increasing seq marker last a ∧ Increasing seq marker (lastFrom seq marker last a) b := by
  induction a generalizing last with
  | nil => simp [Increasing, lastFrom]
  | cons message rest ih =>
    rw [cons_append, Increasing, Increasing, ih, and_assoc]
    rfl

theorem advance_mono {last last' : Nat} (h : last ≤ last') (message : α) :
    advance seq marker last message ≤ advance seq marker last' message := by
  unfold advance
  split
  · exact Nat.le_refl _
  · split
    · exact h
    · exact Nat.le_refl _

theorem lastFrom_mono {last last' : Nat} (h : last ≤ last') (stream : List α) :
    lastFrom seq marker last stream ≤ lastFrom seq marker last' stream := by
  induction stream generalizing last last' with
  | nil => exact h
  | cons message rest ih => exact ih (advance_mono h message)

theorem Increasing.mono {last last' : Nat} {stream : List α} (h : last ≤ last')
    (hstream : Increasing seq marker last' stream) : Increasing seq marker last stream := by
  induction stream generalizing last last' with
  | nil => trivial
  | cons message rest ih =>
    refine ⟨?_, ih (advance_mono h message) hstream.2⟩
    rcases hstream.1 with hmarker | hzero | hlt
    · exact .inl hmarker
    · exact .inr (.inl hzero)
    · exact .inr (.inr (by omega))

theorem lastFrom_le_append (a b : List α) :
    lastFrom seq marker 0 b ≤ lastFrom seq marker 0 (a ++ b) := by
  rw [lastFrom_append]
  exact lastFrom_mono (Nat.zero_le _) b

end Stream

end Flow.Verified.Reorder
