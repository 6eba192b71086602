import Pharos.Node.Import

/-
  This file describes chains of blocks together with the states after them.
-/

----
-- Chains
----

namespace Pharos.Node

open BeaconSpec List

/- A block and the state after it. -/
structure Link (S : Type) where
  signedBlock : SignedBeaconBlock
  postState : S

namespace Link

variable {S : Type}

def block (link : Link S) : BeaconBlock :=
  link.signedBlock.message

def slot (link : Link S) : Slot :=
  link.block.slot

def stateRoot (link : Link S) : Root :=
  link.block.stateRoot

def root [BeaconSpec S] (link : Link S) : Root :=
  treeHashRoot S link.block

end Link

variable {S : Type} [BeaconSpec S]

/-
  Every block is applied to the state after the one before it. No two blocks have the same root, or
  name the same state.
-/
structure Chain (links : List (Link S)) : Prop where
  applied :
    links.IsChain fun parent child => Applied parent.postState child.postState child.signedBlock
  postSlot : ∀ link ∈ links, stateSlot link.postState = link.slot
  latest : ∀ link ∈ links, latestBlock link.postState = (link.slot, link.root)
  roots : (links.map Link.root).Nodup
  stateRoots : (links.map Link.stateRoot).Nodup

omit [BeaconSpec S] in
theorem exists_mem_append_singleton {ls : List (Link S)} {l : Link S}
    {property : Link S → Prop} :
    (∃ x ∈ ls ++ [l], property x) ↔ (∃ x ∈ ls, property x) ∨ property l := by
  simp only [mem_append, mem_singleton, or_and_right, exists_or, exists_eq_left]

namespace Chain

variable {ls : List (Link S)}

theorem increasing (hChain : Chain ls) : (ls.map Link.slot).Pairwise (· < ·) := by
  rw [← isChain_iff_pairwise, isChain_map]
  refine hChain.applied.imp_of_mem_imp ?_
  intro par c hPar _ hApplied
  have hNewer := hApplied.newer
  rw [hChain.latest par hPar] at hNewer
  exact hNewer

variable {l x : Link S}

theorem eq_of_slot (hChain : Chain ls) (hLink : l ∈ ls) (hx : x ∈ ls)
    (hSlot : l.slot = x.slot) : l = x := by
  have hNodup : (ls.map Link.slot).Nodup := hChain.increasing.imp fun hLess => ne_of_lt hLess
  exact inj_on_of_nodup_map hNodup hLink hx hSlot

theorem eq_of_root (hChain : Chain ls) (hLink : l ∈ ls) (hx : x ∈ ls)
    (hr : l.root = x.root) : l = x :=
  inj_on_of_nodup_map hChain.roots hLink hx hr

theorem eq_of_stateRoot (hChain : Chain ls) (hLink : l ∈ ls) (hx : x ∈ ls)
    (hr : l.stateRoot = x.stateRoot) : l = x :=
  inj_on_of_nodup_map hChain.stateRoots hLink hx hr

variable {xs : List (Link S)}

omit [BeaconSpec S] in
theorem exists_split (a : Link S) (hLink : l ∈ xs) :
    ∃ front par back, a :: xs = front ++ par :: l :: back := by
  induction xs generalizing a with
  | nil => exact absurd hLink not_mem_nil
  | cons b more ih =>
    rcases mem_cons.mp hLink with rfl | hMore
    · exact ⟨[], a, more, rfl⟩
    · rcases ih b hMore with ⟨front, par, back, hSplit⟩
      refine ⟨a :: front, par, back, ?_⟩
      rw [hSplit]
      rfl

variable {a : Link S}

theorem exists_before (hChain : Chain (a :: xs)) {relation : Link S → Link S → Prop}
    (hRelated : (a :: xs).IsChain relation) (hLink : l ∈ a :: xs) :
    l = a ∨ ∃ par ∈ a :: xs, relation par l ∧ par.slot < l.slot ∧
      ∀ x ∈ a :: xs, x.slot ≤ par.slot ∨ l.slot ≤ x.slot := by
  rcases mem_cons.mp hLink with hFst | hxs
  · exact .inl hFst
  · right
    rcases exists_split a hxs with ⟨front, par, back, hSplit⟩
    have hSorted := hChain.increasing
    rw [hSplit, isChain_append_cons_cons] at hRelated
    rw [hSplit, map_append, map_cons, map_cons, pairwise_append,
      pairwise_cons, pairwise_cons] at hSorted
    rcases hSorted with ⟨_, ⟨hPar, hBack, _⟩, hFront⟩
    have hLess : par.slot < l.slot := hPar _ mem_cons_self
    rw [hSplit]
    refine ⟨par, ?_, hRelated.2.1, hLess, ?_⟩
    · exact mem_append_right _ mem_cons_self
    · intro x hx
      rcases mem_append.mp hx with hPre | hPost
      · left
        exact le_of_lt (hFront _ (mem_map_of_mem hPre) _ mem_cons_self)
      · rcases mem_cons.mp hPost with hHere | hLater
        · exact .inl (le_of_eq (congrArg Link.slot hHere))
        · right
          rcases mem_cons.mp hLater with hEq | hLast
          · exact ge_of_eq (congrArg Link.slot hEq)
          · exact le_of_lt (hBack _ (mem_map_of_mem hLast))

theorem first_le (hChain : Chain (a :: xs)) (hLink : l ∈ a :: xs) : a.slot ≤ l.slot := by
  have hSorted := hChain.increasing
  rw [map_cons, pairwise_cons] at hSorted
  rcases mem_cons.mp hLink with hHere | hxs
  · exact ge_of_eq (congrArg Link.slot hHere)
  · exact le_of_lt (hSorted.1 _ (mem_map_of_mem hxs))

variable {l : Link S}

/- The last link differs from the others in everything. -/
theorem fresh (hChain : Chain (ls ++ [l])) (hx : x ∈ ls) :
    x.slot < l.slot ∧ x.root ≠ l.root ∧ x.stateRoot ≠ l.stateRoot := by
  have hSlots := hChain.increasing
  have hRoots := hChain.roots
  have hStateRoots := hChain.stateRoots
  rw [map_append, pairwise_append] at hSlots
  rw [map_append, nodup_append] at hRoots hStateRoots
  exact ⟨hSlots.2.2 _ (mem_map_of_mem hx) _ (mem_singleton_self _),
    hRoots.2.2 _ (mem_map_of_mem hx) _ (mem_singleton_self _),
    hStateRoots.2.2 _ (mem_map_of_mem hx) _ (mem_singleton_self _)⟩

/- There is a link after all others. -/
theorem exists_last (hChain : Chain (a :: xs)) :
    ∃ last ∈ a :: xs, ∀ x ∈ a :: xs, x.slot ≤ last.slot := by
  rcases eq_nil_or_concat' (a :: xs) with hNil | ⟨front, last, hLast⟩
  · exact absurd hNil (cons_ne_nil _ _)
  · rw [hLast] at hChain ⊢
    refine ⟨last, by simp, ?_⟩
    intro x hx
    rcases mem_append.mp hx with hOld | hNew
    · exact le_of_lt (hChain.fresh hOld).1
    · rw [mem_singleton.mp hNew]

theorem cases_append (hChain : Chain (ls ++ [l])) (hx : x ∈ ls ++ [l]) :
    x ∈ ls ∧ (x.slot < l.slot ∧ x.root ≠ l.root ∧ x.stateRoot ≠ l.stateRoot) ∨ x = l := by
  rcases mem_append.mp hx with hOld | hNew
  · exact .inl ⟨hOld, hChain.fresh hOld⟩
  · exact .inr (mem_singleton.mp hNew)

theorem append (hChain : Chain ls) {par : Link S} (hLast : ls.getLast? = some par)
    (hApplied : Applied par.postState l.postState l.signedBlock)
    (hRoots : ((ls ++ [l]).map Link.root).Nodup)
    (hStateRoots : ((ls ++ [l]).map Link.stateRoot).Nodup) : Chain (ls ++ [l]) := by
  constructor
  · rw [isChain_append]
    refine ⟨hChain.applied, isChain_singleton _, ?_⟩
    intro last hIsLast c hKid
    rw [hLast] at hIsLast
    rw [← Option.some.inj hIsLast, ← Option.some.inj hKid]
    exact hApplied
  · intro x hx
    rcases mem_append.mp hx with hOld | hNew
    · exact hChain.postSlot x hOld
    · rw [mem_singleton.mp hNew]
      exact hApplied.slot
  · intro x hx
    rcases mem_append.mp hx with hOld | hNew
    · exact hChain.latest x hOld
    · rw [mem_singleton.mp hNew]
      exact hApplied.latest
  · exact hRoots
  · exact hStateRoots

end Chain

----
-- Anchors
----

variable (anchor : CheckpointAnchor S)

def anchorLink : Link S :=
  ⟨anchor.signedBlock, anchor.state⟩

theorem root_anchorLink : (anchorLink anchor).root = anchor.blockRoot :=
  anchor.blockRoot_eq

theorem slot_anchorLink : (anchorLink anchor).slot = stateSlot anchor.state :=
  anchor.slot_eq

theorem chain_anchorLink : Chain [anchorLink anchor] := by
  constructor
  · exact isChain_singleton _
  · intro l hLink
    rw [mem_singleton.mp hLink, slot_anchorLink]
    rfl
  · intro l hLink
    rw [mem_singleton.mp hLink, root_anchorLink]
    exact anchor.header_eq
  · exact nodup_singleton _
  · exact nodup_singleton _

end Pharos.Node
