import Pharos.Lib.Simulation
import Pharos.Ssz.TreeBackend

/-
  This file implements programs that make and change sequences in any order, with any backend, and
  compares them with the same programs on plain lists.

  If a type is simulated by plain lists, whichever backend its sequences have, then no program can
  tell the backends apart.
-/

----
-- Programs
----

namespace Pharos.Ssz

open Simulation List

section

/- Sequences are named by the order in which they were made. -/
inductive SequenceAction (Value : Type) where
  | fromVec (elems : List Value)
  | fromVecTree (elems : List Value)
  | new
  | emptyTree
  | clone (source : Nat)
  | intoTree (source : Nat)
  | withPush (source : Nat) (value : Value)
  | withSet (source i : Nat) (value : Value)
  | treeHashRoot (source : Nat)
  | shareRoot (source : Nat) (path : List Bool)

def SequenceAction.flat {Value : Type} : SequenceAction Value → SequenceAction Value
| .fromVecTree elems => .fromVec elems
| .emptyTree => .new
| .intoTree source => .clone source
| action => action

variable {Value Sequence : Type}

def addFrom (sequences : List Sequence) (source : Nat)
    (make : Sequence → Except SszError Sequence) : Except SszError (List Sequence) :=
  match sequences[source]? with
  | none => .ok sequences
  | some sequence => (make sequence).map fun made => sequences ++ [made]

def remember (sequences : List Sequence) (source : Nat) (change : Sequence → Sequence) :
    List Sequence :=
  match sequences[source]? with
  | none => sequences
  | some sequence => sequences.set source (change sequence)

variable (type : SszSequence Value Sequence)

def SszSequence.step (sequences : List Sequence) :
    SequenceAction Value → Except SszError (List Sequence)
| .fromVec elems =>
  (type.fromVec elems).map fun made => sequences ++ [made]
| .fromVecTree elems =>
  (type.fromVecTree elems).map fun made =>
    sequences ++ [made]
| .new => .ok (sequences ++ (type.empty.map Prod.fst).toList)
| .emptyTree =>
  .ok (sequences ++ (type.empty.map Prod.snd).toList)
| .clone source => addFrom sequences source .ok
| .intoTree source =>
  addFrom sequences source type.intoTree
| .withPush source value =>
  addFrom sequences source (type.withPush · value)
| .withSet source i value =>
  addFrom sequences source (type.withSet · i value)
| .treeHashRoot source =>
  .ok (remember sequences source fun sequence =>
    (type.treeHashRoot sequence).2)
| .shareRoot source path =>
  .ok (remember sequences source (type.shareRoot path))

def SszSequence.after (actions : List (SequenceAction Value)) : List Sequence :=
  Run.final type.step [] actions

def SszSequence.outcomes (type : SszSequence Value Sequence)
    (actions : List (SequenceAction Value)) : List (Except SszError Unit) :=
  Simulation.outcomes type.step [] actions

end

----
-- Simulation
----

section

variable {Value Abstract Concrete : Type}

/- One type of sequences does what another does, and looks the same. -/
structure Simulates (abstract : SszSequence Value Abstract)
    (concrete : SszSequence Value Concrete) (holds : Abstract → Concrete → Prop) : Prop where
  fromVec : ∀ elems, Meets holds (abstract.fromVec elems) (concrete.fromVec elems)
  fromVecTree : ∀ elems, Meets holds (abstract.fromVecTree elems) (concrete.fromVecTree elems)
  empty : Option.Rel (fun a c => holds a.1 c.1 ∧ holds a.2 c.2) abstract.empty concrete.empty
  intoTree : ∀ {a c}, holds a c → Meets holds (abstract.intoTree a) (concrete.intoTree c)
  withPush : ∀ {a c}, holds a c → ∀ value,
    Meets holds (abstract.withPush a value) (concrete.withPush c value)
  withSet : ∀ {a c}, holds a c → ∀ i value,
    Meets holds (abstract.withSet a i value) (concrete.withSet c i value)
  treeHashRoot : ∀ {a c}, holds a c → (abstract.treeHashRoot a).1 = (concrete.treeHashRoot c).1 ∧
    holds (abstract.treeHashRoot a).2 (concrete.treeHashRoot c).2
  shareRoot :
    ∀ {a c}, holds a c → ∀ path, holds (abstract.shareRoot path a) (concrete.shareRoot path c)
  len : ∀ {a c}, holds a c → abstract.len a = concrete.len c
  get : ∀ {a c}, holds a c → ∀ i, abstract.get a i = concrete.get c i
  iter : ∀ {a c}, holds a c → abstract.iter a = concrete.iter c
  eq : ∀ {a c a' c'}, holds a c → holds a' c' → abstract.eq a a' = concrete.eq c c'
  sszBytesLen : ∀ {a c}, holds a c → abstract.sszBytesLen a = concrete.sszBytesLen c
  asSszBytes : ∀ {a c}, holds a c → abstract.asSszBytes a = concrete.asSszBytes c

variable {abstract : SszSequence Value Abstract} {concrete : SszSequence Value Concrete}
variable {holds : Abstract → Concrete → Prop} {as : List Abstract} {cs : List Concrete}

theorem addFrom_meets (hAll : List.Forall₂ holds as cs) (src : Nat)
    {makeAbstract : Abstract → Except SszError Abstract}
    {makeConcrete : Concrete → Except SszError Concrete}
    (hMake : ∀ {a c}, holds a c → Meets holds (makeAbstract a) (makeConcrete c)) :
    Meets (List.Forall₂ holds) (addFrom as src makeAbstract) (addFrom cs src makeConcrete) := by
  have hRow := getElem?_related hAll src
  unfold addFrom
  generalize as[src]? = a at hRow
  generalize cs[src]? = c at hRow
  cases hRow with
  | none => exact .ok hAll
  | some hHolds =>
    exact (hMake hHolds).map fun hMade =>
      concat_related hAll hMade

theorem remember_related (hAll : List.Forall₂ holds as cs) (src : Nat)
    {changeAbstract : Abstract → Abstract} {changeConcrete : Concrete → Concrete}
    (hChange : ∀ {a c}, holds a c → holds (changeAbstract a) (changeConcrete c)) :
    List.Forall₂ holds (remember as src changeAbstract) (remember cs src changeConcrete) := by
  have hRow := getElem?_related hAll src
  unfold remember
  generalize as[src]? = a at hRow
  generalize cs[src]? = c at hRow
  cases hRow with
  | none => exact hAll
  | some hHolds => exact set_related hAll (hChange hHolds) src

theorem Simulates.step (hSim : Simulates abstract concrete holds)
    (hAll : List.Forall₂ holds as cs) (act : SequenceAction Value) :
    Meets (List.Forall₂ holds) (abstract.step as act) (concrete.step cs act) := by
  have hEmpty := hSim.empty
  cases act with
  | fromVec es =>
    exact (hSim.fromVec es).map fun hMade =>
      concat_related hAll hMade
  | fromVecTree es =>
    exact (hSim.fromVecTree es).map fun hMade =>
      concat_related hAll hMade
  | new =>
    unfold SszSequence.step
    generalize abstract.empty = a at hEmpty
    generalize concrete.empty = c at hEmpty
    cases hEmpty with
    | none => simpa using Meets.ok hAll
    | some hBoth => exact .ok (concat_related hAll hBoth.1)
  | emptyTree =>
    unfold SszSequence.step
    generalize abstract.empty = a at hEmpty
    generalize concrete.empty = c at hEmpty
    cases hEmpty with
    | none => simpa using Meets.ok hAll
    | some hBoth => exact .ok (concat_related hAll hBoth.2)
  | clone src => exact addFrom_meets hAll src fun hHolds => .ok hHolds
  | intoTree src => exact addFrom_meets hAll src hSim.intoTree
  | withPush src v =>
    exact addFrom_meets hAll src fun hHolds =>
      hSim.withPush hHolds v
  | withSet src i v =>
    exact addFrom_meets hAll src fun hHolds =>
      hSim.withSet hHolds i v
  | treeHashRoot src =>
    exact .ok (remember_related hAll src fun hHolds =>
      (hSim.treeHashRoot hHolds).2)
  | shareRoot src path =>
    exact .ok (remember_related hAll src fun hHolds =>
      hSim.shareRoot hHolds path)

end

----
-- Plain Lists
----

section

variable {Value : Type} [BEq Value]

section

variable (hash : HashConcat)

def plainRoot (elem : ElementType Value) (N : Nat) (elems : List Value) : Hash256 :=
  Merkle.root hash zeroChunk (treeDepth N elem.elemsPerChunk) (elem.flatLeaves elems)

def plainList (elem : ElementType Value) (N : Nat) : SszSequence Value (List Value) where
  fromVec elems :=
    if N < elems.length then .error (.listLimitExceeded elems.length N) else .ok elems
  fromVecTree elems :=
    if N < elems.length then .error (.listLimitExceeded elems.length N) else .ok elems
  empty := some ([], [])
  intoTree := .ok
  withPush elems value :=
    if N ≤ elems.length then
      .error (.listLimitExceeded (elems.length + 1) N)
    else
      .ok (elems ++ [value])
  withSet elems i value :=
    if elems.length ≤ i then
      .error (.offsetOutOfRange i (elems.length - 1))
    else
      .ok (elems.set i value)
  len := List.length
  get elems i := elems[i]?
  iter elems := elems
  eq elems others := elems == others
  sszBytesLen := elemsSszBytesLen elem.codec
  asSszBytes := elemsSszAppend elem.codec
  treeHashRoot elems := (some (mixInLength hash (plainRoot hash elem N elems) elems.length), elems)
  shareRoot _ elems := elems
  backend := .flat

def plainVector (elem : ElementType Value) (N : Nat) : SszSequence Value (List Value) where
  fromVec elems :=
    if elems.length ≠ N then .error (.vectorLengthMismatch elems.length N) else .ok elems
  fromVecTree elems :=
    if elems.length ≠ N then .error (.vectorLengthMismatch elems.length N) else .ok elems
  empty := none
  intoTree := .ok
  withPush _ _ := .error (.listLimitExceeded (N + 1) N)
  withSet elems i value :=
    if N ≤ i then .error (.offsetOutOfRange i (N - 1)) else .ok (elems.set i value)
  len := List.length
  get elems i := elems[i]?
  iter elems := elems
  eq elems others := elems == others
  sszBytesLen := elemsSszBytesLen elem.codec
  asSszBytes := elemsSszAppend elem.codec
  treeHashRoot elems := (some (plainRoot hash elem N elems), elems)
  shareRoot _ elems := elems
  backend := .flat

end

end

----
-- Programs without Trees
----

variable {Value Sequence Abstract : Type}

variable (type : SszSequence Value Sequence)

/- All that can be seen of a sequence. -/
structure SameObservations (sequence other : Sequence) : Prop where
  len : type.len sequence = type.len other
  get : ∀ i, type.get sequence i = type.get other i
  iter : type.iter sequence = type.iter other
  sszBytesLen : type.sszBytesLen sequence = type.sszBytesLen other
  asSszBytes : type.asSszBytes sequence = type.asSszBytes other
  treeHashRoot :
    ∃ root, (type.treeHashRoot sequence).1 = some root ∧ (type.treeHashRoot other).1 = some root

/-
  A program gives the same results as it does without trees, the sequences that it makes look the
  same, and no root that is remembered is wrong.
-/
structure RunsAsFlat (hash : HashConcat) (elem : ElementType Value)
    (type : SszSequence Value Sequence) (actions : List (SequenceAction Value)) : Prop where
  outcomes : type.outcomes actions = type.outcomes (actions.map SequenceAction.flat)
  flat : ∀ other ∈ type.after (actions.map SequenceAction.flat), (type.backend other).isTree = false
  same : List.Forall₂ (SameObservations type) (type.after actions)
    (type.after (actions.map SequenceAction.flat))
  eq : ∀ {i j : Nat} {sequence sequence' other other'}, (type.after actions)[i]? = some sequence →
    (type.after actions)[j]? = some sequence' →
    (type.after (actions.map SequenceAction.flat))[i]? = some other →
    (type.after (actions.map SequenceAction.flat))[j]? = some other' →
      type.eq sequence sequence' = type.eq other other' ∧
        type.eq sequence other' = type.eq other other'
  exact : ∀ sequence ∈ type.after actions, ∀ root,
    type.backend sequence = .tree root → root.Exact hash elem

/- What is made of plain lists only is a plain list. -/
structure KeepsFlat : Prop where
  fromVec : ∀ {elems made}, type.fromVec elems = .ok made → (type.backend made).isTree = false
  new : ∀ {pair}, type.empty = some pair → (type.backend pair.1).isTree = false
  withPush : ∀ {sequence value made}, (type.backend sequence).isTree = false →
    type.withPush sequence value = .ok made → (type.backend made).isTree = false
  withSet : ∀ {sequence i value made}, (type.backend sequence).isTree = false →
    type.withSet sequence i value = .ok made → (type.backend made).isTree = false
  treeHashRoot : ∀ {sequence}, (type.backend sequence).isTree = false →
    (type.backend (type.treeHashRoot sequence).2).isTree = false
  shareRoot : ∀ {sequence path}, (type.backend sequence).isTree = false →
    (type.backend (type.shareRoot path sequence)).isTree = false

theorem forall_addFrom {holds : Sequence → Prop} {sequences s' : List Sequence} {src : Nat}
    {make : Sequence → Except SszError Sequence} (hAll : ∀ seq ∈ sequences, holds seq)
    (hMake : ∀ {seq made}, holds seq → make seq = .ok made → holds made)
    (hOk : addFrom sequences src make = .ok s') : ∀ seq ∈ s', holds seq := by
  unfold addFrom at hOk
  cases hSrc : sequences[src]? with
  | none =>
    simp only [hSrc, Except.ok.injEq] at hOk
    rw [← hOk]
    exact hAll
  | some seq =>
    simp only [hSrc] at hOk
    rcases Outcome.map_ok_iff.mp hOk with ⟨made, hMade, rfl⟩
    have hSeq := hAll seq (mem_of_getElem? hSrc)
    rw [forall_mem_append]
    refine ⟨hAll, ?_⟩
    rw [forall_mem_singleton]
    exact hMake hSeq hMade

theorem forall_remember {holds : Sequence → Prop} {sequences : List Sequence} {src : Nat}
    {change : Sequence → Sequence} (hAll : ∀ seq ∈ sequences, holds seq)
    (hChange : ∀ {seq}, holds seq → holds (change seq)) :
    ∀ seq ∈ remember sequences src change, holds seq := by
  unfold remember
  cases hSrc : sequences[src]? with
  | none => exact hAll
  | some y =>
    intro seq hSeq
    rcases mem_or_eq_of_mem_set hSeq with hOld | rfl
    · exact hAll seq hOld
    · exact hChange (hAll y (mem_of_getElem? hSrc))

theorem KeepsFlat.step {type : SszSequence Value Sequence} (hFlat : KeepsFlat type)
    {sequences s' : List Sequence} {act : SequenceAction Value}
    (hAll : ∀ seq ∈ sequences, (type.backend seq).isTree = false)
    (hOk : type.step sequences act.flat = .ok s') :
    ∀ seq ∈ s', (type.backend seq).isTree = false := by
  have hMade :
      ∀ es, (type.fromVec es).map (fun made => sequences ++ [made]) = .ok s' → ∀ seq ∈
        s', (type.backend seq).isTree = false := by
    intro es hElems
    rcases Outcome.map_ok_iff.mp hElems with ⟨made, hMade, rfl⟩
    rw [forall_mem_append]
    refine ⟨hAll, ?_⟩
    rw [forall_mem_singleton]
    exact hFlat.fromVec hMade
  have hNew :
      ∀ seq ∈ sequences ++ (type.empty.map Prod.fst).toList, (type.backend seq).isTree = false := by
    rw [forall_mem_append]
    refine ⟨hAll, ?_⟩
    intro seq hSeq
    rw [Option.mem_toList, Option.map_eq_some_iff] at hSeq
    rcases hSeq with ⟨pair, hPair, rfl⟩
    exact hFlat.new hPair
  cases act with
  | fromVec es | fromVecTree es => exact hMade es hOk
  | new | emptyTree => exact Except.ok.inj hOk ▸ hNew
  | clone src | intoTree src =>
    refine forall_addFrom hAll ?_ hOk
    rintro seq made hSeq ⟨⟩
    exact hSeq
  | withPush src v => exact forall_addFrom hAll hFlat.withPush hOk
  | withSet src i v => exact forall_addFrom hAll hFlat.withSet hOk
  | treeHashRoot src =>
    cases hOk
    exact forall_remember hAll hFlat.treeHashRoot
  | shareRoot src path =>
    cases hOk
    exact forall_remember hAll hFlat.shareRoot

theorem KeepsFlat.after {type : SszSequence Value Sequence} (hFlat : KeepsFlat type)
    (acts : List (SequenceAction Value)) :
    ∀ seq ∈ type.after (acts.map SequenceAction.flat), (type.backend seq).isTree = false := by
  refine Run.invariant_of_step (fun sequences => ∀ seq ∈ sequences, (type.backend seq).isTree =
    false) ?_ ?_
  · intro s act s' hAction hPre hOk
    rcases mem_map.mp hAction with ⟨src, -, rfl⟩
    exact hFlat.step hPre hOk
  · intro seq hNone
    nomatch hNone

variable {plain : SszSequence Value Abstract} {type : SszSequence Value Sequence}
variable {holds : Abstract → Sequence → Prop} {hash : HashConcat} {y : ElementType Value}

theorem Simulates.exists_holds (hSim : Simulates plain type holds)
    {acts : List (SequenceAction Value)} {seq : Sequence} (hSeq : seq ∈ type.after acts) :
    ∃ abstract, holds abstract seq := by
  have hReal := final_related (fun hAll => hSim.step hAll) .nil acts
  rw [map_id'] at hReal
  exact exists_related hReal hSeq

theorem Simulates.runsAsFlat (hSim : Simulates plain type holds)
    (hEq : ∀ sequences act, plain.step sequences act.flat = plain.step sequences act)
    (hr : ∀ abstract, ∃ r, (plain.treeHashRoot abstract).1 = some r)
    (hFlat : KeepsFlat type)
    (hExact : ∀ {abstract seq}, holds abstract seq →
      ∀ r, type.backend seq = .tree r → r.Exact hash y)
    (acts : List (SequenceAction Value)) : RunsAsFlat hash y type acts := by
  have hStep : ∀ {as : List Abstract} {ss : List Sequence},
      List.Forall₂ holds as ss → ∀ act, Meets (List.Forall₂ holds) (plain.step as act)
        (type.step ss act) :=
    fun hAll => hSim.step hAll
  -- Both programs are followed by one program on plain lists.
  have hReal := final_related hStep .nil acts
  have hTwin := final_related hStep .nil (acts.map SequenceAction.flat)
  rw [map_id'] at hReal hTwin
  rw [final_map_eq hEq] at hTwin
  have hBoth := both_related hReal hTwin
  refine ⟨?_, hFlat.after acts, ?_, ?_, ?_⟩
  · have hRealOutcomes := outcomes_eq hStep .nil acts
    have hTwinOutcomes := outcomes_eq hStep .nil (acts.map SequenceAction.flat)
    rw [map_id'] at hRealOutcomes hTwinOutcomes
    rw [outcomes_map_eq hEq] at hTwinOutcomes
    exact hRealOutcomes.trans hTwinOutcomes.symm
  · refine hBoth.imp ?_
    rintro seq x ⟨abstract, hHolds, hx⟩
    rcases hr abstract with ⟨r, hSome⟩
    exact
      { len := (hSim.len hHolds).symm.trans (hSim.len hx)
        get := fun i => (hSim.get hHolds i).symm.trans (hSim.get hx i)
        iter := (hSim.iter hHolds).symm.trans (hSim.iter hx)
        sszBytesLen := (hSim.sszBytesLen hHolds).symm.trans (hSim.sszBytesLen hx)
        asSszBytes := (hSim.asSszBytes hHolds).symm.trans (hSim.asSszBytes hx)
        treeHashRoot := ⟨r, (hSim.treeHashRoot hHolds).1.symm.trans hSome,
          (hSim.treeHashRoot hx).1.symm.trans hSome⟩ }
  · intro i j seq sequence' x other' hSeq hSeq' hx hOther'
    have hHere := getElem?_related hBoth i
    have hThere := getElem?_related hBoth j
    change Option.Rel _ (type.after acts)[i]?
      (type.after (acts.map SequenceAction.flat))[i]? at hHere
    change Option.Rel _ (type.after acts)[j]?
      (type.after (acts.map SequenceAction.flat))[j]? at hThere
    rw [hSeq, hx] at hHere
    rw [hSeq', hOther'] at hThere
    rcases hHere with ⟨abstract, hHolds, hTwinHolds⟩
    rcases hThere with ⟨abstract', hHolds', hTwinHolds'⟩
    rw [← hSim.eq hHolds hHolds', ← hSim.eq hTwinHolds hTwinHolds', ← hSim.eq hHolds hTwinHolds']
    exact ⟨rfl, rfl⟩
  · intro seq hSeq r hTree
    rcases hSim.exists_holds hSeq with ⟨abstract, hHolds⟩
    exact hExact hHolds r hTree

end Pharos.Ssz
