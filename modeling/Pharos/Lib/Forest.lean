import Mathlib.Algebra.Order.Ring.Nat
import Mathlib.Algebra.BigOperators.Group.Finset.Basic

/-
  This file implements forests given by parent pointers: every node has at most one parent, and a
  rank that decreases towards the parents excludes cycles.

  Loops over such a forest are written with fuel; the theorems here say how much fuel is enough, and
  what the loop then computes.
-/

----
-- Ancestors
----

namespace Forest

open List

section

variable {Node : Type} {parent : Node → Option Node}

def Ancestor (parent : Node → Option Node) (ancestor node : Node) : Prop :=
  Relation.ReflTransGen (fun child up => parent child = some up) node ancestor

/- Some steps lead from one node to another. -/
abbrev Reaches (next : Node → Option Node) (first last : Node) : Prop :=
  Relation.ReflTransGen (fun node after => next node = some after) first last

def Ranked (parent : Node → Option Node) (rank : Node → Nat) : Prop :=
  ∀ child up, parent child = some up → rank up < rank child

theorem rightUnique : Relator.RightUnique (fun c up => parent c = some up) := by
  intro c up x hUp hx
  exact Option.some.inj (hUp.symm.trans hx)

namespace Ancestor

theorem refl (node : Node) : Ancestor parent node node :=
  Relation.ReflTransGen.refl

theorem trans {a b third : Node} (hFst : Ancestor parent a b)
    (hSnd : Ancestor parent b third) : Ancestor parent a third :=
  Relation.ReflTransGen.trans hSnd hFst

theorem of_parent {c up : Node} (hPar : parent c = some up) : Ancestor parent up c :=
  Relation.ReflTransGen.single hPar

theorem cases_child {anc node : Node} (hAnc : Ancestor parent anc node) :
    anc = node ∨ ∃ up, parent node = some up ∧ Ancestor parent anc up := by
  rcases Relation.ReflTransGen.cases_head hAnc with hEq | ⟨up, hUp, hxs⟩
  · exact .inl hEq.symm
  · exact .inr ⟨up, hUp, hxs⟩

theorem eq_of_none {anc node : Node} (hEnd : parent node = none)
    (hAnc : Ancestor parent anc node) : anc = node := by
  rcases hAnc.cases_child with hEq | ⟨up, hUp, _⟩
  · exact hEq
  · rw [hEnd] at hUp
    cases hUp

theorem eq_or_up {anc node up : Node} (hPar : parent node = some up)
    (hAnc : Ancestor parent anc node) :
    anc = node ∨ Ancestor parent anc up := by
  rcases hAnc.cases_child with hEq | ⟨x, hx, hxs⟩
  · exact .inl hEq
  · rw [hPar] at hx
    rw [← Option.some.inj hx] at hxs
    exact .inr hxs

theorem cases_parent {anc node : Node} (hAnc : Ancestor parent anc node) :
    node = anc ∨ ∃ c, parent c = some anc ∧ Ancestor parent c node := by
  rcases Relation.ReflTransGen.cases_tail hAnc with hEq | ⟨c, hxs, hKid⟩
  · exact .inl hEq.symm
  · exact .inr ⟨c, hKid, hxs⟩

theorem total {a b node : Node} (hFst : Ancestor parent a node)
    (hSnd : Ancestor parent b node) :
    Ancestor parent a b ∨ Ancestor parent b a := by
  rcases Relation.ReflTransGen.total_of_right_unique rightUnique hFst hSnd with hUp | hDown
  · exact .inr hUp
  · exact .inl hDown

end Ancestor

/- The nearest ancestor with a property: all others that have it are ancestors of it. -/
structure Nearest (parent : Node → Option Node) (property : Node → Prop)
    (node nearest : Node) : Prop where
  ancestor : Ancestor parent nearest node
  holds : property nearest
  first : ∀ other, Ancestor parent other node → property other → Ancestor parent other nearest

namespace Nearest

variable {property : Node → Prop}

theorem self {node : Node} (hHolds : property node) : Nearest parent property node node :=
  ⟨.refl node, hHolds, fun _ hAbove _ => hAbove⟩

theorem of_parent {node up nearest : Node} (hFails : ¬property node)
    (hPar : parent node = some up) (hNearest : Nearest parent property up nearest) :
    Nearest parent property node nearest where
  ancestor := hNearest.ancestor.trans (.of_parent hPar)
  holds := hNearest.holds
  first x hAbove hHolds := by
    rcases hAbove.eq_or_up hPar with hEq | hxs
    · rw [hEq] at hHolds
      exact absurd hHolds hFails
    · exact hNearest.first x hxs hHolds

end Nearest

namespace Ranked

variable {rank : Node → Nat}

section

variable (hRank : Ranked parent rank)
include hRank

theorem le_of_ancestor {anc node : Node} (hAnc : Ancestor parent anc node) :
    rank anc ≤ rank node := by
  induction hAnc with
  | refl => exact le_refl _
  | tail _ hStep ih =>
    have hLess := hRank _ _ hStep
    omega

/- A ranked forest has no cycles. -/
theorem not_ancestor_of_parent {c up : Node} (hPar : parent c = some up) :
    ¬Ancestor parent c up := by
  intro hAnc
  have hLess := hRank c up hPar
  have hLe := hRank.le_of_ancestor hAnc
  omega

theorem ancestor_antisymm {a b : Node} (hFst : Ancestor parent a b)
    (hSnd : Ancestor parent b a) : a = b := by
  rcases hFst.cases_child with hEq | ⟨up, hUp, hxs⟩
  · exact hEq
  · exact absurd (hSnd.trans hxs) (hRank.not_ancestor_of_parent hUp)

theorem not_ancestor_sibling {up a b : Node} (hFst : parent a = some up)
    (hSnd : parent b = some up) (hDistinct : a ≠ b) :
    ¬Ancestor parent a b := by
  intro hAbove
  rcases hAbove.eq_or_up hSnd with hEq | hxs
  · exact hDistinct hEq
  · exact hRank.not_ancestor_of_parent hFst hxs

theorem sibling_eq {up a b node : Node} (hFst : parent a = some up)
    (hSnd : parent b = some up) (hBelowFst : Ancestor parent a node)
    (hBelowSnd : Ancestor parent b node) : a = b := by
  by_contra hDistinct
  rcases hBelowFst.total hBelowSnd with hAbove | hBelow
  · exact hRank.not_ancestor_sibling hFst hSnd hDistinct hAbove
  · exact hRank.not_ancestor_sibling hSnd hFst (Ne.symm hDistinct) hBelow

theorem exists_bounded_rank {nodes : List Node}
    (hNodes : ∀ c up, parent c = some up → c ∈ nodes) :
    ∃ height : Node → Nat, Ranked parent height ∧ ∀ node, height node ≤ nodes.length := by
  refine ⟨fun node =>
    (nodes.filter fun x => rank x ≤ rank node).length,
    ?_, fun node => length_filter_le _ _⟩
  intro c up hPar
  have hLess := hRank c up hPar
  have hKid := hNodes c up hPar
  -- The child itself is counted for the child only.
  have hSub : (nodes.filter fun x => rank x ≤ rank up) = (nodes.filter fun x =>
          rank x ≤ rank c).filter (fun x => rank x ≤ rank up) := by
    rw [filter_filter]
    refine filter_congr ?_
    intro x _
    by_cases hx : rank x ≤ rank up
    · have hBoth : rank x ≤ rank c := by omega
      simp [hx, hBoth]
    · simp [hx]
  show (nodes.filter fun x => rank x ≤ rank up).length <
    (nodes.filter fun x => rank x ≤ rank c).length
  rw [hSub]
  refine length_filter_lt_length_iff_exists.mpr ⟨c, ?_, ?_⟩
  · exact mem_filter.mpr ⟨hKid, by simp⟩
  · simpa using hLess

end

end Ranked

end

----
-- Following Pointers
----

section

variable {Node : Type}

/- Follow pointers to the end, or until the fuel is gone. -/
def follow (next : Node → Option Node) : Nat → Node → Node
| 0, node => node
| fuel + 1, node =>
  match next node with
  | none => node
  | some after => follow next fuel after

variable {next : Node → Option Node} {measure : Node → Nat} {fuel : Nat} {node : Node}

theorem follow_reaches (fuel : Nat) (node : Node) : Reaches next node (follow next fuel node) := by
  induction fuel generalizing node with
  | zero => exact Relation.ReflTransGen.refl
  | succ fuel ih =>
    rw [follow]
    cases hNext : next node with
    | none => exact Relation.ReflTransGen.refl
    | some s' => exact Relation.ReflTransGen.head hNext (ih s')

/- With enough fuel the end has no pointer. -/
theorem follow_stops
    (hMeas : ∀ node s', next node = some s' → measure s' < measure node)
    (hFuel : measure node ≤ fuel) : next (follow next fuel node) = none := by
  induction fuel generalizing node with
  | zero =>
    cases hNext : next node with
    | none => exact hNext
    | some s' =>
      have hLess := hMeas node s' hNext
      omega
  | succ fuel ih =>
    rw [follow]
    cases hNext : next node with
    | none => exact hNext
    | some s' =>
      have hLess := hMeas node s' hNext
      exact ih (by omega)

theorem reaches_stop {s₀ mid stop : Node}
    (hMiddle : Reaches next s₀ mid) (hPath : Reaches next s₀ stop) (hStop : next stop = none) :
    Reaches next mid stop := by
  rcases Relation.ReflTransGen.total_of_right_unique rightUnique hMiddle hPath with hForth | hBack
  · exact hForth
  · rcases Relation.ReflTransGen.cases_head hBack with hEq | ⟨s', hStep, _⟩
    · rw [hEq]
    · rw [hStop] at hStep
      cases hStep

theorem eq_of_stops {s₀ a b : Node}
    (hFst : Reaches next s₀ a) (hFstStop : next a = none) (hSnd : Reaches next s₀ b)
    (hSndStop : next b = none) : a = b := by
  rcases Relation.ReflTransGen.cases_head (reaches_stop hFst hSnd hSndStop) with
    hEq | ⟨s', hStep, _⟩
  · exact hEq
  · rw [hFstStop] at hStep
    cases hStep

/- Two ends without a pointer are the same. -/
theorem follow_eq_of_stops {more : Nat} (hFuel : next (follow next fuel node) = none)
    (hMore : next (follow next more node) = none) : follow next fuel node = follow next more node :=
  eq_of_stops (follow_reaches fuel node) hFuel (follow_reaches more node) hMore

theorem follow_succ (hMeas : ∀ node s', next node = some s' → measure s' < measure node)
    (hFuel : measure node ≤ fuel) : follow next (fuel + 1) node = follow next fuel node :=
  follow_eq_of_stops (follow_stops hMeas (Nat.le_succ_of_le hFuel)) (follow_stops hMeas hFuel)

end

section

variable {Node : Type}

def chain (parent : Node → Option Node) : Nat → Node → List Node
| 0, _ => []
| fuel + 1, node =>
  match parent node with
  | none => [node]
  | some up => node :: chain parent fuel up

variable {par : Node → Option Node} {rank : Node → Nat}

theorem Ranked.mem_chain_iff (hRank : Ranked par rank) {fuel : Nat} {anc node : Node}
    (hFuel : rank node < fuel) :
    anc ∈ chain par fuel node ↔ Ancestor par anc node := by
  induction fuel generalizing node with
  | zero => omega
  | succ fuel ih =>
    rw [chain]
    cases hPar : par node with
    | none =>
      rw [mem_singleton]
      constructor
      · intro hEq
        rw [hEq]
        exact Ancestor.refl node
      · exact Ancestor.eq_of_none hPar
    | some up =>
      have hLess := hRank node up hPar
      rw [mem_cons, ih (by omega)]
      constructor
      · intro hCases
        rcases hCases with hEq | hAbove
        · rw [hEq]
          exact Ancestor.refl node
        · exact hAbove.trans (Ancestor.of_parent hPar)
      · exact Ancestor.eq_or_up hPar

end

----
-- Visiting Subtrees
----

variable {Node : Type}

def bfs (children : Node → List Node) : Nat → List Node → List Node
| 0, _ => []
| _, [] => []
| fuel + 1, node :: queue =>
  node :: bfs children fuel (queue ++ children node)

variable {parent : Node → Option Node}

open Classical in
noncomputable def subtree (parent : Node → Option Node) (nodes : Finset Node) (node : Node) :
    Finset Node :=
  insert node (nodes.filter (Ancestor parent node))

variable {nodes : Finset Node}

theorem ancestor_of_mem_subtree {node below : Node} (hBelow : below ∈ subtree parent nodes node) :
    Ancestor parent node below := by
  classical
  rcases Finset.mem_insert.mp hBelow with hEq | hFilter
  · rw [hEq]
    exact Ancestor.refl node
  · exact (Finset.mem_filter.mp hFilter).2

variable (parent nodes) in
theorem card_subtree_pos (node : Node) : 0 < (subtree parent nodes node).card := by
  classical
  exact Finset.card_pos.mpr ⟨node, Finset.mem_insert_self _ _⟩

variable (parent nodes) in
theorem card_subtree_le (node : Node) : (subtree parent nodes node).card ≤ nodes.card + 1 := by
  classical
  exact (Finset.card_insert_le _ _).trans (Nat.add_le_add_right (Finset.card_filter_le _ _) 1)

variable {cs : Node → List Node} {rank : Node → Nat}

theorem Ranked.disjoint_subtree (hRank : Ranked parent rank) {up a b : Node}
    (hFst : parent a = some up) (hSnd : parent b = some up)
    (hDistinct : a ≠ b) :
    Disjoint (subtree parent nodes a) (subtree parent nodes b) := by
  refine Finset.disjoint_left.mpr ?_
  intro node hInFst hInSnd
  exact hDistinct (hRank.sibling_eq hFst hSnd (ancestor_of_mem_subtree hInFst)
    (ancestor_of_mem_subtree hInSnd))

theorem Ranked.sum_card_subtree_lt (hRank : Ranked parent rank)
    (hChildren : ∀ c up, c ∈ cs up ↔ parent c = some up)
    (hNodup : ∀ up, (cs up).Nodup)
    (hNodes : ∀ c up, parent c = some up → c ∈ nodes) (node : Node) :
    ((cs node).map fun c => (subtree parent nodes c).card).sum <
      (subtree parent nodes node).card := by
  classical
  rw [← sum_toFinset _ (hNodup node), ← Finset.card_biUnion]
  · refine Finset.card_lt_card ?_
    refine Finset.ssubset_iff_of_subset ?_ |>.mpr ⟨node, Finset.mem_insert_self _ _, ?_⟩
    · intro below hBelow
      rcases Finset.mem_biUnion.mp hBelow with ⟨c, hKid, hUnder⟩
      have hPar : parent c = some node :=
        (hChildren c node).mp (mem_toFinset.mp hKid)
      have hAnc := (Ancestor.of_parent hPar).trans (ancestor_of_mem_subtree hUnder)
      refine Finset.mem_insert_of_mem (Finset.mem_filter.mpr ⟨?_, hAnc⟩)
      rcases Finset.mem_insert.mp hUnder with hEq | hFilter
      · rw [hEq]
        exact hNodes c node hPar
      · exact (Finset.mem_filter.mp hFilter).1
    · intro hInside
      rcases Finset.mem_biUnion.mp hInside with ⟨c, hKid, hUnder⟩
      exact hRank.not_ancestor_of_parent ((hChildren c node).mp (mem_toFinset.mp hKid))
        (ancestor_of_mem_subtree hUnder)
  · intro a hFst b hSnd hDistinct
    exact hRank.disjoint_subtree ((hChildren a node).mp (mem_toFinset.mp hFst))
      ((hChildren b node).mp (mem_toFinset.mp hSnd)) hDistinct

variable {fuel : Nat} {queue : List Node}

theorem ancestor_of_mem_bfs (hChildren : ∀ c up, c ∈ cs up ↔ parent c = some up)
    {node : Node} (hVisited : node ∈ bfs cs fuel queue) :
    ∃ s₀ ∈ queue, Ancestor parent s₀ node := by
  induction fuel generalizing queue with
  | zero => exact absurd hVisited not_mem_nil
  | succ fuel ih =>
    cases queue with
    | nil => exact absurd hVisited not_mem_nil
    | cons a xs =>
      rcases mem_cons.mp hVisited with hHere | hLater
      · rw [hHere]
        exact ⟨a, mem_cons_self, Ancestor.refl a⟩
      · rcases ih hLater with ⟨s₀, hStart, hBelow⟩
        rcases mem_append.mp hStart with hxs | hKid
        · exact ⟨s₀, mem_cons_of_mem _ hxs, hBelow⟩
        · have hPar := (hChildren s₀ a).mp hKid
          exact ⟨a, mem_cons_self, (Ancestor.of_parent hPar).trans hBelow⟩

section

variable (hRank : Ranked parent rank)
variable (hChildren : ∀ c up, c ∈ cs up ↔ parent c = some up)
variable (hNodup : ∀ up, (cs up).Nodup)
variable (hNodes : ∀ c up, parent c = some up → c ∈ nodes)
include hRank hChildren hNodup hNodes

theorem Ranked.sum_card_queue_le {a : Node} {xs : List Node}
    (hFuel : ((a :: xs).map fun s₀ => (subtree parent nodes s₀).card).sum ≤ fuel + 1) :
    ((xs ++ cs a).map fun s₀ => (subtree parent nodes s₀).card).sum ≤ fuel := by
  have hLess := hRank.sum_card_subtree_lt hChildren hNodup hNodes a
  simp only [map_cons, sum_cons] at hFuel
  simp only [map_append, sum_append]
  omega

theorem Ranked.mem_bfs_of_ancestor
    (hFuel : (queue.map fun s₀ => (subtree parent nodes s₀).card).sum ≤ fuel)
    {s₀ node : Node} (hStart : s₀ ∈ queue) (hBelow : Ancestor parent s₀ node) :
    node ∈ bfs cs fuel queue := by
  induction fuel generalizing queue s₀ with
  | zero =>
    cases queue with
    | nil => exact absurd hStart not_mem_nil
    | cons a xs =>
      have hSize := card_subtree_pos parent nodes a
      simp only [map_cons, sum_cons] at hFuel
      omega
  | succ fuel ih =>
    cases queue with
    | nil => exact absurd hStart not_mem_nil
    | cons a xs =>
      have hEnough := hRank.sum_card_queue_le hChildren hNodup hNodes hFuel
      rcases mem_cons.mp hStart with rfl | hxs
      · rcases hBelow.cases_parent with hEq | ⟨c, hPar, hUnder⟩
        · rw [hEq]
          exact mem_cons_self
        · refine mem_cons_of_mem _ (ih hEnough ?_ hUnder)
          exact mem_append_right _ ((hChildren c s₀).mpr hPar)
      · exact mem_cons_of_mem _ (ih hEnough (mem_append_left _ hxs) hBelow)

theorem Ranked.mem_bfs_iff (hFuel : nodes.card < fuel) {s₀ node : Node} :
    node ∈ bfs cs fuel [s₀] ↔ Ancestor parent s₀ node := by
  constructor
  · intro hVisited
    rcases ancestor_of_mem_bfs hChildren hVisited with ⟨x, hx, hBelow⟩
    rw [mem_singleton.mp hx] at hBelow
    exact hBelow
  · intro hBelow
    have hSize := card_subtree_le parent nodes s₀
    refine hRank.mem_bfs_of_ancestor hChildren hNodup hNodes ?_ (mem_singleton_self s₀) hBelow
    simp only [map_cons, map_nil, sum_cons, sum_nil]
    omega

/- The queue is empty by then: more fuel changes nothing. -/
theorem Ranked.bfs_succ
    (hFuel : (queue.map fun s₀ => (subtree parent nodes s₀).card).sum ≤ fuel) :
    bfs cs (fuel + 1) queue = bfs cs fuel queue := by
  induction fuel generalizing queue with
  | zero =>
    cases queue with
    | nil => rfl
    | cons a xs =>
      have hSize := card_subtree_pos parent nodes a
      simp only [map_cons, sum_cons] at hFuel
      omega
  | succ fuel ih =>
    cases queue with
    | nil => rfl
    | cons a xs => rw [bfs, bfs, ih (hRank.sum_card_queue_le hChildren hNodup hNodes hFuel)]

theorem Ranked.bfs_eq_of_le {more : Nat} (hFuel : nodes.card < fuel) (hMore : fuel ≤ more)
    (s₀ : Node) : bfs cs more [s₀] = bfs cs fuel [s₀] := by
  induction more, hMore using Nat.le_induction with
  | base => rfl
  | succ more hMore ih =>
    have hSize := card_subtree_le parent nodes s₀
    rw [hRank.bfs_succ hChildren hNodup hNodes, ih]
    simp only [map_cons, map_nil, sum_cons, sum_nil]
    omega

end

end Forest
