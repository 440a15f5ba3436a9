import Mathlib.Algebra.Order.BigOperators.Group.List
import Mathlib.Data.List.Chain
import Mathlib.Data.List.Perm.Subperm
import Mathlib.Algebra.Order.Ring.Nat
import Mathlib.Logic.Relation

/-!
# Graphs with short chains

A graph is given by its edges, `next : κ → List κ`.  It has a number of levels when
no chain of edges is longer; such a graph has no cycle.

The module has the two searches that keep a graph so: `search` walks from a stack of
nodes until it meets a target, and `longest` measures the longest chain from a node.
Both are bounded by the edges of the nodes that have any.
-/

namespace Flow.Verified.Layers

open List Option Relation

variable {κ : Type} {next next' : κ → List κ} {a b p x child target : κ} {n : Nat}

def Link (next : κ → List κ) (a b : κ) : Prop := b ∈ next a

/-- No chain of edges has more nodes. -/
def Bounded (next : κ → List κ) (n : Nat) : Prop :=
  ∀ chain : List κ, chain.IsChain (Link next) → chain.length ≤ n

def Acyclic (next : κ → List κ) : Prop := ∀ k, ¬TransGen (Link next) k k

variable {chain : List κ}

theorem exists_longer (hpath : TransGen (Link next) x a)
    (hchain : (a :: chain).IsChain (Link next)) :
    ∃ longer, (x :: longer).IsChain (Link next) ∧ chain.length < longer.length := by
  induction hpath using TransGen.head_induction_on with
  | single hlink => exact ⟨a :: chain, .cons_cons hlink hchain, Nat.lt_succ_self _⟩
  | @head x y hlink _ ih =>
    obtain ⟨longer, hlonger, hlt⟩ := ih
    exact ⟨y :: longer, .cons_cons hlink hlonger, Nat.lt_succ_of_lt hlt⟩

theorem exists_chain_of_cycle (hcycle : TransGen (Link next) a a) (n : Nat) :
    ∃ chain, (a :: chain).IsChain (Link next) ∧ n ≤ chain.length := by
  induction n with
  | zero => exact ⟨[], .singleton a, Nat.zero_le _⟩
  | succ n ih =>
    obtain ⟨chain, hchain, hle⟩ := ih
    obtain ⟨longer, hlonger, hlt⟩ := exists_longer hcycle hchain
    exact ⟨longer, hlonger, by omega⟩

theorem Bounded.acyclic (h : Bounded next n) : Acyclic next := by
  intro a hcycle
  obtain ⟨chain, hchain, hle⟩ := exists_chain_of_cycle hcycle n
  have hlength := h _ hchain
  rw [length_cons] at hlength
  omega

theorem reach_of_chain (hchain : (a :: chain).IsChain (Link next))
    (hb : b ∈ a :: chain) : ReflTransGen (Link next) a b := by
  induction chain generalizing a with
  | nil =>
    rw [mem_singleton.mp hb]
  | cons c rest ih =>
    rcases mem_cons.mp hb with rfl | hb
    · exact .refl
    · exact .head (isChain_cons_cons.mp hchain).1 (ih (isChain_cons_cons.mp hchain).2 hb)

/-- A chain of a graph without cycles has no repetition. -/
theorem Acyclic.nodup (h : Acyclic next) (hchain : chain.IsChain (Link next)) : chain.Nodup := by
  induction chain with
  | nil => exact nodup_nil
  | cons a rest ih =>
    refine nodup_cons.mpr ⟨fun ha => ?_, ih hchain.tail⟩
    cases rest with
    | nil => cases ha
    | cons b rest =>
      obtain ⟨hlink, hrest⟩ := isChain_cons_cons.mp hchain
      exact h a (.head' hlink (reach_of_chain hrest ha))

/-! ## New edges of one node -/

/-- A chain with new edges of one node that do not lead back is an old chain, or has
one new edge between two old chains. -/
theorem chain_extend (hother : ∀ k, k ≠ child → next' k ⊆ next k)
    (hback : ∀ p ∈ next' child, p ∉ next child → ¬ReflTransGen (Link next) p child)
    (hchain : chain.IsChain (Link next')) :
    chain.IsChain (Link next) ∨
      ∃ below p above, chain = below ++ child :: p :: above ∧ p ∈ next' child ∧
        p ∉ next child ∧ (below ++ [child]).IsChain (Link next) ∧
          (p :: above).IsChain (Link next) := by
  induction chain with
  | nil => exact .inl .nil
  | cons a rest ih =>
    cases rest with
    | nil => exact .inl (.singleton a)
    | cons b rest =>
      obtain ⟨hlink, hrest⟩ := isChain_cons_cons.mp hchain
      by_cases hold : b ∈ next a
      · -- An old edge goes in front of either shape.
        rcases ih hrest with hrest | ⟨below, p, above, heq, hp, hnew, hbelow, habove⟩
        · exact .inl (.cons_cons hold hrest)
        · refine .inr ⟨a :: below, p, above, by rw [heq]; rfl, hp, hnew, ?_, habove⟩
          cases below with
          | nil =>
            cases heq
            exact .cons_cons hold hbelow
          | cons c below =>
            cases heq
            exact .cons_cons hold hbelow
      · have ha : a = child := by
          by_contra hne
          exact hold (hother a hne hlink)
        subst ha
        rcases ih hrest with hrest | ⟨below, p, above, heq, _, _, hbelow, _⟩
        · exact .inr ⟨[], b, rest, rfl, hlink, hold, .singleton _, hrest⟩
        · -- The chain behind the new edge comes back to its node.
          refine absurd ?_ (hback b hlink hold)
          cases below with
          | nil =>
            cases heq
            exact .refl
          | cons c below =>
            cases heq
            exact reach_of_chain hbelow (by simp)

/-- **New edges of one node keep the number of levels** when they do not lead back and the
chains below the node and above them fit. -/
theorem Bounded.extend (h : Bounded next n) (hother : ∀ k, k ≠ child → next' k ⊆ next k)
    (hback : ∀ p ∈ next' child, p ∉ next child → ¬ReflTransGen (Link next) p child)
    (hfit : ∀ p ∈ next' child, p ∉ next child → ∀ below above : List κ,
      (below ++ [child]).IsChain (Link next) → (p :: above).IsChain (Link next) →
        below.length + above.length + 2 ≤ n) : Bounded next' n := by
  intro chain hchain
  rcases chain_extend hother hback hchain with
    hold | ⟨below, p, above, rfl, hp, hnew, hbelow, habove⟩
  · exact h chain hold
  · have hle := hfit p hp hnew below above hbelow habove
    simp only [length_append]
    omega

/-! ## The search -/

variable {keys : List κ} {node : κ}

section Search

variable [DecidableEq κ]

/-- Walk from the nodes of a stack until the target is met. A walk that is cut off counts as one
that met it; enough fuel excludes this. -/
def search (next : κ → List κ) (target : κ) : Nat → List κ → List κ → Bool
  | _, _, [] => false
  | 0, _, _ :: _ => true
  | fuel + 1, visited, node :: stack =>
    if node = target then true
    else if node ∈ visited then search next target fuel visited stack
    else search next target fuel (node :: visited) ((next node).reverse ++ stack)

def unvisited (next : κ → List κ) (keys visited : List κ) : Nat :=
  ((keys.filter (· ∉ visited)).map fun k => (next k).length).sum

/-- Visiting a node takes its edges away, or it has none. -/
theorem unvisited_cons {visited : List κ} (hkeys : ∀ k, next k ≠ [] → k ∈ keys)
    (hnode : node ∉ visited) :
    unvisited next keys (node :: visited) + (next node).length ≤ unvisited next keys visited := by
  unfold unvisited
  have hfilter : keys.filter (· ∉ node :: visited) =
      (keys.filter (· ∉ visited)).filter (· ≠ node) := by
    simp
  rw [hfilter]
  generalize hrest : keys.filter (· ∉ visited) = rest
  by_cases hempty : next node = []
  · rw [hempty]
    exact (filter_sublist.map _).sum_le_sum fun _ _ => Nat.zero_le _
  · -- taking away every `node` takes away at least the first one
    have hmem : node ∈ rest := hrest ▸ mem_filter.mpr ⟨hkeys node hempty, by simpa using hnode⟩
    have hsub := (filter_sublist (p := (· ≠ node)) (l := rest)).erase node
    rw [erase_of_not_mem (by simp)] at hsub
    have hle := (hsub.map fun k => (next k).length).sum_le_sum fun _ _ => Nat.zero_le _
    have hsum := ((perm_cons_erase hmem).map fun k => (next k).length).sum_eq
    rw [map_cons, sum_cons] at hsum
    omega

/-- A search that meets the target has reached it. -/
theorem reach_of_search (hkeys : ∀ k, next k ≠ [] → k ∈ keys) :
    ∀ (fuel : Nat) (visited stack : List κ), stack.length + unvisited next keys visited ≤ fuel →
        search next target fuel visited stack →
          ∃ node ∈ stack, ReflTransGen (Link next) node target := by
  intro fuel visited stack
  induction fuel, visited, stack using search.induct next target with
  | case1 fuel visited => exact fun _ h => absurd h (by simp [search])
  | case2 visited node stack => exact fun hfuel _ => absurd hfuel (by simp)
  | case3 fuel visited stack => exact fun _ _ => ⟨target, mem_cons_self, .refl⟩
  | case4 fuel visited node stack hne hvisited ih =>
    intro hfuel h
    rw [search, if_neg hne, if_pos hvisited] at h
    rw [length_cons] at hfuel
    obtain ⟨other, hother, hreach⟩ := ih (by omega) h
    exact ⟨other, mem_cons_of_mem _ hother, hreach⟩
  | case5 fuel visited node stack hne hvisited ih =>
    intro hfuel h
    rw [search, if_neg hne, if_neg hvisited] at h
    have hless := unvisited_cons hkeys hvisited
    rw [length_cons] at hfuel
    obtain ⟨other, hother, hreach⟩ :=
      ih (by rw [length_append, length_reverse]; omega) h
    rcases mem_append.mp hother with hnext | hstack
    · exact ⟨node, mem_cons_self, .head (mem_reverse.mp hnext) hreach⟩
    · exact ⟨other, mem_cons_of_mem _ hstack, hreach⟩

/-- A search that does not meet the target has walked all it can reach: the nodes behind a
visited one are visited or on the stack. -/
theorem not_reach_of_search : ∀ (fuel : Nat) (visited stack : List κ),
      search next target fuel visited stack = false →
        (∀ v ∈ visited, v ≠ target ∧ ∀ w ∈ next v, w ∈ visited ∨ w ∈ stack) →
          ∀ node, node ∈ visited ∨ node ∈ stack → ¬ReflTransGen (Link next) node target := by
  intro fuel visited stack
  induction fuel, visited, stack using search.induct next target with
  | case1 fuel visited =>
    intro _ hclosed node hnode hreach
    have hvisited : node ∈ visited := hnode.resolve_right (not_mem_nil)
    have hend : ∀ k, ReflTransGen (Link next) node k → k ∈ visited := by
      intro k hk
      induction hk with
      | refl => exact hvisited
      | tail _ hlink ih => exact ((hclosed _ ih).2 _ hlink).resolve_right not_mem_nil
    exact (hclosed target (hend target hreach)).1 rfl
  | case2 | case3 => exact fun h => absurd h (by simp [search])
  | case4 fuel visited node stack hne hvisited ih =>
    intro h hclosed other hother
    rw [search, if_neg hne, if_pos hvisited] at h
    have hseen : ∀ w, w ∈ visited ∨ w ∈ node :: stack → w ∈ visited ∨ w ∈ stack := by
      rintro w (hw | hw)
      · exact .inl hw
      · rcases mem_cons.mp hw with rfl | hw
        · exact .inl hvisited
        · exact .inr hw
    refine ih h (fun v hv => ?_) other (hseen other hother)
    exact ⟨(hclosed v hv).1, fun w hw => hseen w ((hclosed v hv).2 w hw)⟩
  | case5 fuel visited node stack hne hvisited ih =>
    intro h hclosed other hother
    rw [search, if_neg hne, if_neg hvisited] at h
    have hseen : ∀ w, w ∈ visited ∨ w ∈ node :: stack →
        w ∈ node :: visited ∨ w ∈ (next node).reverse ++ stack := by
      rintro w (hw | hw)
      · exact .inl (mem_cons_of_mem _ hw)
      · rcases mem_cons.mp hw with rfl | hw
        · exact .inl mem_cons_self
        · exact .inr (mem_append_right _ hw)
    refine ih h (fun v hv => ?_) other (hseen other hother)
    rcases mem_cons.mp hv with rfl | hv
    · exact ⟨hne, fun w hw => .inr (mem_append_left _ (mem_reverse.mpr hw))⟩
    · exact ⟨(hclosed v hv).1, fun w hw => hseen w ((hclosed v hv).2 w hw)⟩

/-- **The search finds exactly what can be reached.** -/
theorem search_eq_true_iff {stack : List κ} (hkeys : ∀ k, next k ≠ [] → k ∈ keys)
    {fuel : Nat} (hfuel : stack.length + unvisited next keys [] ≤ fuel) :
    search next target fuel [] stack ↔ ∃ node ∈ stack, ReflTransGen (Link next) node target := by
  constructor
  · exact reach_of_search hkeys fuel [] stack hfuel
  · rintro ⟨node, hnode, hreach⟩
    by_contra h
    exact not_reach_of_search fuel [] stack (Bool.eq_false_iff.mpr h) nofun node (.inr hnode) hreach

end Search

section Longest

variable [DecidableEq κ]

/-- The edges of the longest chain from a node that does not come back to itself or to a visited
node. -/
def longest (next : κ → List κ) : Nat → κ → List κ → Nat
  | 0, _, _ => 0
  | fuel + 1, node, visiting =>
    (((next node).filter fun other => other ∉ node :: visiting).map fun other =>
      longest next fuel other (node :: visiting) + 1).foldr max 0

theorem le_foldr_max {values : List Nat} (h : n ∈ values) : n ≤ values.foldr max 0 := by
  induction values with
  | nil => cases h
  | cons value rest ih =>
    rcases mem_cons.mp h with rfl | h
    · exact Nat.le_max_left _ _
    · exact Nat.le_trans (ih h) (Nat.le_max_right _ _)

theorem le_longest_of_fuel {fuel : Nat} {visiting : List κ}
    (hchain : (node :: chain).IsChain (Link next)) (hnodup : (node :: chain).Nodup)
    (hvisiting : ∀ k ∈ chain, k ∉ visiting) (hfuel : chain.length ≤ fuel) :
    chain.length ≤ longest next fuel node visiting := by
  induction chain generalizing fuel node visiting with
  | nil => exact Nat.zero_le _
  | cons other rest ih =>
    cases fuel with
    | zero => cases hfuel
    | succ fuel =>
      obtain ⟨hlink, hrest⟩ := isChain_cons_cons.mp hchain
      obtain ⟨hnode, hnodup⟩ := nodup_cons.mp hnodup
      have hnext : other ∉ node :: visiting := by
        intro hmem
        rcases mem_cons.mp hmem with heq | hmem
        · exact hnode (heq ▸ mem_cons_self)
        · exact hvisiting other mem_cons_self hmem
      have hdeeper : rest.length ≤ longest next fuel other (node :: visiting) := by
        refine ih hrest hnodup (fun k hk hmem => ?_) (Nat.le_of_succ_le_succ hfuel)
        rcases mem_cons.mp hmem with rfl | hmem
        · exact hnode (mem_cons_of_mem _ hk)
        · exact hvisiting k (mem_cons_of_mem _ hk) hmem
      refine Nat.le_trans (Nat.succ_le_succ hdeeper) (le_foldr_max ?_)
      exact mem_map.mpr ⟨other, mem_filter.mpr ⟨hlink, by simpa using hnext⟩, rfl⟩

/-- **No chain without a repetition is longer**, when there is fuel for every node that
has edges. -/
theorem le_longest (hkeys : ∀ k, next k ≠ [] → k ∈ keys)
    {visiting : List κ} (hchain : (node :: chain).IsChain (Link next))
    (hnodup : (node :: chain).Nodup) (hvisiting : ∀ k ∈ chain, k ∉ visiting) :
    chain.length ≤ longest next keys.length node visiting := by
  apply le_longest_of_fuel hchain hnodup hvisiting
  -- All nodes of the chain but the last have an edge.
  have hsources : ∀ k ∈ (node :: chain).dropLast, k ∈ keys := by
    clear hnodup hvisiting
    induction chain generalizing node with
    | nil => exact fun _ hk => absurd hk not_mem_nil
    | cons other rest ih =>
      intro k hk
      obtain ⟨hlink, hrest⟩ := isChain_cons_cons.mp hchain
      rcases mem_cons.mp hk with rfl | hk
      · exact hkeys k (ne_nil_of_mem hlink)
      · exact ih hrest k hk
  have hle := ((dropLast_sublist _).nodup hnodup).subperm hsources |>.length_le
  simpa using hle

end Longest

end Flow.Verified.Layers
