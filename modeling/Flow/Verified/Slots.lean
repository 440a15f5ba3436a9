import Mathlib.Algebra.Order.BigOperators.Group.List
import Mathlib.Algebra.Order.Ring.Int

/-!
# Operations in flight

A component with overlapping operations keeps them in a list: an operation is
pushed when it begins, stays in its slot, and each of its steps writes that
slot.  An operation that has ended stays there as well, so a slot number means
the same operation for a whole run.  A step that calls a store gets a `Reply`:
the call may fail, with or without an effect.

These are the rules for one such write: which operation a slot holds
afterwards, and how a total over all operations changes.
-/

namespace Flow.Verified.Slots

open List Option

inductive Reply where
  | ok
  | failed
  | unreported
deriving DecidableEq, Repr

variable {α : Type} {xs : List α} {k j : Nat} {old new x : α}

theorem getElem?_set_cases (h : (xs.set k new)[j]? = some x) :
    (j = k ∧ x = new) ∨ (j ≠ k ∧ xs[j]? = some x) := by
  by_cases hjk : k = j
  · subst hjk
    rw [getElem?_set] at h
    simp only [if_pos] at h
    split at h
    · exact .inl ⟨rfl, (some.inj h).symm⟩
    · cases h
  · rw [getElem?_set_ne hjk] at h
    exact .inr ⟨Ne.symm hjk, h⟩

theorem exists_around (h : xs[k]? = some old) :
    ∃ front back, xs = front ++ old :: back ∧ (∀ new, xs.set k new = front ++ new :: back) ∧
      xs.eraseIdx k = front ++ back := by
  induction xs generalizing k with
  | nil => simp at h
  | cons head rest ih =>
    cases k with
    | zero =>
      cases h
      exact ⟨[], rest, rfl, fun _ => rfl, rfl⟩
    | succ k =>
      obtain ⟨front, back, rfl, hset, herase⟩ := ih h
      refine ⟨head :: front, back, rfl, fun new => ?_, ?_⟩
      · exact congrArg (head :: ·) (hset new)
      · exact congrArg (head :: ·) herase

theorem forall_set {P : α → Prop} (hall : ∀ x ∈ xs, P x) (hnew : P new) :
    ∀ x ∈ xs.set k new, P x := by
  intro x hx
  rcases mem_or_eq_of_mem_set hx with hx | rfl
  · exact hall x hx
  · exact hnew

theorem forall_push {P : α → Prop} (hall : ∀ x ∈ xs, P x) (hnew : P new) :
    ∀ x ∈ xs ++ [new], P x := by
  intro x hx
  rcases mem_append.1 hx with hx | hx
  · exact hall x hx
  · rw [mem_singleton.1 hx]
    exact hnew

theorem getElem?_push_cases (h : (xs ++ [new])[j]? = some x) :
    (j = xs.length ∧ x = new) ∨ xs[j]? = some x := by
  rcases Nat.lt_or_ge j xs.length with hlt | hge
  · rw [getElem?_append_left hlt] at h
    exact .inr h
  · rw [getElem?_append_right hge, getElem?_singleton] at h
    split at h
    · cases h
      exact .inl ⟨by omega, rfl⟩
    · cases h

theorem nodup_push {β : Type} {key : α → β} (hnodup : (xs.map key).Nodup)
    (hnew : key new ∉ xs.map key) : ((xs ++ [new]).map key).Nodup := by
  rw [map_append, nodup_append]
  refine ⟨hnodup, by simp, ?_⟩
  rintro a ha b hb rfl
  exact hnew (mem_singleton.mp hb ▸ ha)

/-- A write changes a total by what the two operations contribute. -/
theorem sum_map_set (f : α → Int) (h : xs[k]? = some old) :
    ((xs.set k new).map f).sum = (xs.map f).sum - f old + f new := by
  obtain ⟨front, back, rfl, hset, -⟩ := exists_around h
  rw [hset]
  simp only [map_append, map_cons, sum_append, sum_cons]
  omega

end Flow.Verified.Slots
