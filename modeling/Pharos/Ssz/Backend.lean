import Pharos.Ssz.TreeIter

/-
  This file implements lists and vectors with both of their backends: a plain list of elements, and
  a persistent tree.
-/

----
-- Backends
----

namespace Pharos.Ssz

section

open Chunks

variable {Value : Type}

inductive Backend (Value : Type) where
  | flat (elems : List Value)
  | tree (root : Node Value)

def Backend.isTree : Backend Value → Bool
| .flat _ => false
| .tree _ => true

/- What lists and vectors do alike with their trees. -/
section Trees

variable (N : Nat)

def treeFrom (elem : ElementType Value) (elems : List Value) : Node Value :=
  let epc := elem.elemsPerChunk
  let depth := treeDepth N epc
  if epc = 1 then Node.fromSlice elems depth else Node.fromChunks (chunks epc elems) depth

def treeGet (epc : Nat) (root : Node Value) (i : Nat) : Option Value :=
  let depth := treeDepth N epc
  if epc = 1 then root.get i depth else (root.chunkAt (i / epc) depth).bind (·[i % epc]?)

def treeWithSet (epc : Nat) (root : Node Value) (i : Nat) (value : Value) : Node Value :=
  let depth := treeDepth N epc
  if epc = 1 then
    root.withSet i value depth
  else
    let chunkIdx := i / epc
    let chunk := (root.chunkAt chunkIdx depth).getD []
    root.withChunk chunkIdx (chunk.set (i % epc) value) depth

def treeWithPush (epc : Nat) (root : Node Value) (len : Nat) (value : Value) : Node Value :=
  let depth := treeDepth N epc
  if epc = 1 then
    root.withSet len value depth
  else
    let chunkIdx := len / epc
    if len % epc = 0 then
      root.withChunk chunkIdx [value] depth
    else
      let chunk := (root.chunkAt chunkIdx depth).getD []
      root.withChunk chunkIdx (chunk ++ [value]) depth

def treeIter (epc : Nat) (root : Node Value) (len : Nat) : List Value :=
  (TreeIter.new root (treeDepth N epc) len).collect len

end Trees

def Backend.shareRoot (hash : HashConcat) (elem : ElementType Value) (path : List Bool) :
    Backend Value → Backend Value
| .flat elems => .flat elems
| .tree root => .tree (root.cachedRootAt hash elem path)

end

----
-- Lists
----

section

variable {Value : Type}

structure SszList (Value : Type) where
  backend : Backend Value
  len : Nat
  epc : Nat

namespace SszList

def new : SszList Value :=
  ⟨.flat [], 0, 1⟩

variable (N : Nat)

def fromVec (elems : List Value) : Except SszError (SszList Value) :=
  if N < elems.length then
    .error (.listLimitExceeded elems.length N)
  else
    .ok ⟨.flat elems, elems.length, 1⟩

variable (elem : ElementType Value)

def fromVecTree (elems : List Value) : Except SszError (SszList Value) :=
  if N < elems.length then
    .error (.listLimitExceeded elems.length N)
  else
    .ok ⟨.tree (treeFrom N elem elems), elems.length, elem.elemsPerChunk⟩

def emptyTree : SszList Value :=
  let epc := elem.elemsPerChunk
  ⟨.tree (.zeroSubtree (treeDepth N epc)), 0, epc⟩

section

variable (list : SszList Value)

def intoTree : Except SszError (SszList Value) :=
  match list.backend with
  | .tree _ => .ok list
  | .flat elems => fromVecTree N elem elems

def get (i : Nat) : Option Value :=
  match list.backend with
  | .flat elems => elems[i]?
  | .tree root =>
    if list.len ≤ i then none else treeGet N list.epc root i

def iter : List Value :=
  match list.backend with
  | .flat elems => elems
  | .tree root => treeIter N list.epc root list.len

def withSet (i : Nat) (value : Value) : Except SszError (SszList Value) :=
  if list.len ≤ i then
    .error (.offsetOutOfRange i (list.len - 1))
  else
    match list.backend with
    | .flat elems => .ok ⟨.flat (elems.set i value), list.len, 1⟩
    | .tree root => .ok ⟨.tree (treeWithSet N list.epc root i value), list.len, list.epc⟩

def withPush (value : Value) : Except SszError (SszList Value) :=
  if N ≤ list.len then
    .error (.listLimitExceeded (list.len + 1) N)
  else
    match list.backend with
    | .flat elems =>
      let elems := elems ++ [value]
      .ok ⟨.flat elems, elems.length, 1⟩
    | .tree root =>
      .ok ⟨.tree (treeWithPush N list.epc root list.len value), list.len + 1, list.epc⟩

end

def eq [BEq Value] (list other : SszList Value) : Bool :=
  if list.len ≠ other.len then
    false
  else
    match list.backend, other.backend with
    | .flat elems, .flat others => elems == others
    | _, _ => list.iter N == other.iter N

theorem eq_eq_iter [BEq Value] (list x : SszList Value) :
    list.eq N x = (decide (list.len = x.len) && list.iter N == x.iter N) := by
  unfold SszList.eq SszList.iter
  by_cases hLen : list.len = x.len
  · cases list.backend <;> cases x.backend <;> simp [hLen]
  · simp [hLen]

def treeHashRoot (hash : HashConcat) (list : SszList Value) : Option Hash256 × SszList Value :=
  match list.backend with
  | .tree root =>
    let (hashed, root) := root.cachedRoot hash elem
    (some (mixInLength hash hashed list.len), { list with backend := .tree root })
  | .flat elems =>
    let limit :=
      if elem.treeHashType = .basic then chunkLimit N elem.codec.sszFixedLen else N
    let root := merkleizePadded hash (elem.flatLeaves elems) limit
    (root.map (mixInLength hash · list.len), list)

end SszList

----
-- Vectors
----

structure SszVector (Value : Type) where
  backend : Backend Value
  epc : Nat

namespace SszVector

variable (N : Nat)

def fromVec (elems : List Value) : Except SszError (SszVector Value) :=
  if elems.length ≠ N then
    .error (.vectorLengthMismatch elems.length N)
  else
    .ok ⟨.flat elems, 1⟩

variable (elem : ElementType Value)

def fromVecTree (elems : List Value) : Except SszError (SszVector Value) :=
  if elems.length ≠ N then
    .error (.vectorLengthMismatch elems.length N)
  else
    .ok ⟨.tree (treeFrom N elem elems), elem.elemsPerChunk⟩

section

variable (vector : SszVector Value)

def intoTree : Except SszError (SszVector Value) :=
  match vector.backend with
  | .tree _ => .ok vector
  | .flat elems => fromVecTree N elem elems

def get (i : Nat) : Option Value :=
  match vector.backend with
  | .flat elems => elems[i]?
  | .tree root =>
    if N ≤ i then none else treeGet N vector.epc root i

def iter : List Value :=
  match vector.backend with
  | .flat elems => elems
  | .tree root => treeIter N vector.epc root N

def withSet (i : Nat) (value : Value) : Except SszError (SszVector Value) :=
  if N ≤ i then
    .error (.offsetOutOfRange i (N - 1))
  else
    match vector.backend with
    | .flat elems => .ok ⟨.flat (elems.set i value), 1⟩
    | .tree root => .ok ⟨.tree (treeWithSet N vector.epc root i value), vector.epc⟩

end

def withPush (_vector : SszVector Value) (_value : Value) : Except SszError (SszVector Value) :=
  .error (.listLimitExceeded (N + 1) N)

def eq [BEq Value] (vector other : SszVector Value) : Bool :=
  match vector.backend, other.backend with
  | .flat elems, .flat others => elems == others
  | _, _ => vector.iter N == other.iter N

theorem eq_eq_iter [BEq Value] (vector x : SszVector Value) :
    vector.eq N x = (vector.iter N == x.iter N) := by
  unfold SszVector.eq SszVector.iter
  cases vector.backend <;> cases x.backend <;> rfl

def treeHashRoot (hash : HashConcat) (vector : SszVector Value) :
    Option Hash256 × SszVector Value :=
  match vector.backend with
  | .tree root =>
    let (hashed, root) := root.cachedRoot hash elem
    (some hashed, { vector with backend := .tree root })
  | .flat elems => (some (merkleize hash (elem.flatLeaves elems)), vector)

end SszVector

end

----
-- Sequences
----

/-
  What both types provide. Only lists can be made empty, and the last operation is done by another
  sequence.
-/
structure SszSequence (Value Sequence : Type) where
  fromVec : List Value → Except SszError Sequence
  fromVecTree : List Value → Except SszError Sequence
  empty : Option (Sequence × Sequence)
  intoTree : Sequence → Except SszError Sequence
  withPush : Sequence → Value → Except SszError Sequence
  withSet : Sequence → Nat → Value → Except SszError Sequence
  len : Sequence → Nat
  get : Sequence → Nat → Option Value
  iter : Sequence → List Value
  eq : Sequence → Sequence → Bool
  sszBytesLen : Sequence → Nat
  asSszBytes : Sequence → List UInt8
  treeHashRoot : Sequence → Option Hash256 × Sequence
  shareRoot : List Bool → Sequence → Sequence
  backend : Sequence → Backend Value

variable {Value : Type} [BEq Value]

def listSequence (hash : HashConcat) (elem : ElementType Value) (N : Nat) :
    SszSequence Value (SszList Value) where
  fromVec := SszList.fromVec N
  fromVecTree := SszList.fromVecTree N elem
  empty := some (SszList.new, SszList.emptyTree N elem)
  intoTree := SszList.intoTree N elem
  withPush := SszList.withPush N
  withSet := SszList.withSet N
  len := SszList.len
  get := SszList.get N
  iter := SszList.iter N
  eq := SszList.eq N
  sszBytesLen list := elemsSszBytesLen elem.codec (list.iter N)
  asSszBytes list := elemsSszAppend elem.codec (list.iter N)
  treeHashRoot := SszList.treeHashRoot N elem hash
  shareRoot path list :=
    { list with backend := list.backend.shareRoot hash elem path }
  backend := SszList.backend

def vectorSequence (hash : HashConcat) (elem : ElementType Value) (N : Nat) :
    SszSequence Value (SszVector Value) where
  fromVec := SszVector.fromVec N
  fromVecTree := SszVector.fromVecTree N elem
  empty := none
  intoTree := SszVector.intoTree N elem
  withPush := SszVector.withPush N
  withSet := SszVector.withSet N
  len _ := N
  get := SszVector.get N
  iter := SszVector.iter N
  eq := SszVector.eq N
  sszBytesLen vector := elemsSszBytesLen elem.codec (vector.iter N)
  asSszBytes vector := elemsSszAppend elem.codec (vector.iter N)
  treeHashRoot := SszVector.treeHashRoot elem hash
  shareRoot path vector :=
    { vector with backend := vector.backend.shareRoot hash elem path }
  backend := SszVector.backend

end Pharos.Ssz
