import Mathlib.Logic.Relation

/-!
# Runs of a partial step function

Every concurrent component of this development is given by one executable function
`step : σ → α → Option σ`: from a state and an action it computes the next state, or
`none` when the action cannot be taken there.  An interleaving is a list of actions,
and a claim about every interleaving is one about every state such a list can lead to.

This module is the induction those claims share.  `Reaches step ok` relates a state to
every state a run leads to when each action meets the side condition `ok` before it;
`Reaches.invariant` is the invariant rule, and `reaches_of_exec` turns a concrete list
of actions, evaluated by the kernel, into such a run.
-/

namespace Flow.Verified.Run

variable {σ α : Type}

/-- One move of a run: an action that meets `ok` and can be taken. -/
def Move (step : σ → α → Option σ) (ok : σ → α → Prop) (s s' : σ) : Prop :=
  ∃ a, ok s a ∧ step s a = some s'

/-- The states reached by runs all of whose actions meet `ok`. -/
def Reaches (step : σ → α → Option σ) (ok : σ → α → Prop) : σ → σ → Prop :=
  Relation.ReflTransGen (Move step ok)

/-- The side condition of an unrestricted run. -/
def Unrestricted : σ → α → Prop := fun _ _ => True

variable {step : σ → α → Option σ} {ok : σ → α → Prop}

theorem Reaches.refl (s : σ) : Reaches step ok s s :=
  Relation.ReflTransGen.refl

theorem Reaches.trans {s t u : σ} (hst : Reaches step ok s t)
    (htu : Reaches step ok t u) : Reaches step ok s u :=
  Relation.ReflTransGen.trans hst htu

theorem Reaches.snoc {s t u : σ} {a : α} (hst : Reaches step ok s t)
    (hok : ok t a) (hstep : step t a = some u) : Reaches step ok s u :=
  Relation.ReflTransGen.tail hst ⟨a, hok, hstep⟩

/-- **The invariant rule.**  What one action preserves, a whole run
preserves. -/
theorem Reaches.invariant {P : σ → Prop}
    (hstep : ∀ s a s', P s → ok s a → step s a = some s' → P s')
    {s t : σ} (hrun : Reaches step ok s t) (hs : P s) : P t := by
  induction hrun with
  | refl => exact hs
  | tail _ hmove ih =>
    obtain ⟨a, hok, hnext⟩ := hmove
    exact hstep _ a _ ih hok hnext

/-- A reflexive and transitive relation that one action respects is respected by a whole run. -/
theorem Reaches.respects {R : σ → σ → Prop} (hrefl : ∀ s, R s s)
    (htrans : ∀ s t u, R s t → R t u → R s u) (hstep : ∀ s a s', step s a = some s' → R s s')
    {s t : σ} (hrun : Reaches step ok s t) : R s t := by
  induction hrun with
  | refl => exact hrefl s
  | tail _ hmove ih =>
    obtain ⟨a, _, hnext⟩ := hmove
    exact htrans _ _ _ ih (hstep _ a _ hnext)

/-- Execute a list of actions, checking the side condition of each. -/
def exec (step : σ → α → Option σ) (ok : σ → α → Prop)
    [∀ s a, Decidable (ok s a)] : List α → σ → Option σ
  | [], s => some s
  | a :: as, s =>
    if ok s a then
      match step s a with
      | some s' => exec step ok as s'
      | none => none
    else none

/-- A list of actions that executes is a run. -/
theorem reaches_of_exec [∀ s a, Decidable (ok s a)] :
    ∀ (as : List α) (s t : σ), exec step ok as s = some t → Reaches step ok s t := by
  intro as
  induction as with
  | nil =>
    intro s t h
    simp only [exec, Option.some.injEq] at h
    subst h
    exact Reaches.refl s
  | cons a as ih =>
    intro s t h
    simp only [exec] at h
    split at h
    · rename_i hok
      cases hnext : step s a with
      | none => simp [hnext] at h
      | some s' =>
        simp only [hnext] at h
        exact ((Reaches.refl s).snoc hok hnext).trans (ih s' t h)
    · simp at h

/-- A list of actions that executes and ends in a state with `P` shows that
such a state is reached. -/
theorem exists_reaches [∀ s a, Decidable (ok s a)] {P : σ → Prop} [DecidablePred P]
    (as : List α) (s : σ) (h : (exec step ok as s).any (fun t => decide (P t))) :
    ∃ t, Reaches step ok s t ∧ P t := by
  obtain ⟨t, hexec, hP⟩ := (Option.any_eq_true _ _).1 h
  exact ⟨t, reaches_of_exec as s t hexec, of_decide_eq_true hP⟩

/-- The same, with what holds of every state with `P` that is reached. -/
theorem exists_reaches_and [∀ s a, Decidable (ok s a)] {P Q : σ → Prop} [DecidablePred P]
    (as : List α) (s : σ) (h : (exec step ok as s).any (fun t => decide (P t)))
    (hQ : ∀ t, Reaches step ok s t → P t → Q t) : ∃ t, Reaches step ok s t ∧ P t ∧ Q t := by
  obtain ⟨t, hrun, hP⟩ := exists_reaches as s h
  exact ⟨t, hrun, hP, hQ t hrun hP⟩

instance (s : σ) (a : α) : Decidable (Unrestricted s a) := isTrue trivial

end Flow.Verified.Run
