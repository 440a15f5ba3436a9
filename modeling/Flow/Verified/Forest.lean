import Mathlib.Logic.Function.Basic
import Mathlib.Logic.Relation

/-!
# Parent pointers without cycles

A forest is given by its parent pointers, `parent : κ → Option κ`.  Removing a
pointer keeps it free of cycles, and so does a new pointer whose target does
not lead back (`Acyclic.update_some`).
-/

namespace Flow.Verified.Forest

open Relation Function

variable {κ : Type} [DecidableEq κ] {parent : κ → Option κ} {a p x y : κ}

def Up (parent : κ → Option κ) (a b : κ) : Prop :=
  parent a = some b

instance (parent : κ → Option κ) (a b : κ) : Decidable (Up parent a b) :=
  inferInstanceAs (Decidable (parent a = some b))

/-- Following parent pointers never returns to where it began. -/
def Acyclic (parent : κ → Option κ) : Prop :=
  ∀ k, ¬TransGen (Up parent) k k

theorem up_update_ne {v : Option κ} (hne : x ≠ a) (h : Up (update parent a v) x y) :
    Up parent x y := by
  unfold Up at h ⊢
  rwa [update_of_ne hne] at h

theorem up_update_self {v : Option κ} (h : Up (update parent a v) a y) : v = some y := by
  unfold Up at h
  rwa [update_self] at h

/-- Fewer pointers make no cycle. -/
theorem Acyclic.update_none (h : Acyclic parent) : Acyclic (update parent a none) := by
  intro k hk
  refine h k (TransGen.mono (fun x y hxy => ?_) k k hk)
  by_cases hxa : x = a
  · subst hxa
    cases up_update_self hxy
  · exact up_update_ne hxa hxy

/-- A pointer from `a` that `p` does not lead to changes nothing above `p`. -/
theorem above_update {v : Option κ} (hp : ¬ReflTransGen (Up parent) p a)
    (h : ReflTransGen (Up (update parent a v)) p y) :
    ReflTransGen (Up parent) p y := by
  induction h with
  | refl => exact .refl
  | @tail y z _ hyz ih =>
    have hya : y ≠ a := by
      rintro rfl
      exact hp ih
    exact ih.tail (up_update_ne hya hyz)

/-- A path with a new pointer from `a` to `p` is an old one, or leads to `a` and
on from `p`. -/
theorem path_update (hp : ¬ReflTransGen (Up parent) p a)
    (h : TransGen (Up (update parent a (some p))) x y) :
    TransGen (Up parent) x y ∨ ReflTransGen (Up parent) x a ∧ ReflTransGen (Up parent) p y := by
  induction h with
  | @single y hxy =>
    by_cases hxa : x = a
    · subst hxa
      cases up_update_self hxy
      exact .inr ⟨.refl, .refl⟩
    · exact .inl (.single (up_update_ne hxa hxy))
  | @tail y z _ hyz ih =>
    by_cases hya : y = a
    · subst hya
      cases up_update_self hyz
      rcases ih with hold | ⟨_, hback⟩
      · exact .inr ⟨hold.to_reflTransGen, .refl⟩
      · exact absurd hback hp
    · have hold := up_update_ne hya hyz
      rcases ih with hpath | ⟨hxa, hpy⟩
      · exact .inl (hpath.tail hold)
      · exact .inr ⟨hxa, hpy.tail hold⟩

/-- **A new pointer that does not lead back makes no cycle.** -/
theorem Acyclic.update_some (h : Acyclic parent) (hp : ¬ReflTransGen (Up parent) p a) :
    Acyclic (update parent a (some p)) := by
  intro k hk
  rcases path_update hp hk with hold | ⟨hka, hpk⟩
  · exact h k hold
  · exact hp (hpk.trans hka)

end Flow.Verified.Forest
