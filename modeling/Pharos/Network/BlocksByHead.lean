import Pharos.Network.Responses

/-
  This file implements the answer to a request for a block and its ancestors.

  The handler works with blocks of any fork, and reads the slot and the parent of a block from its
  message, through a view. The view of the type that stands for all forks has no message to refer
  to: asking it for one panics, whatever the fork. A root that is stored is therefore never served.

  Main theorems:
  * `blocks_by_head_served_iff`
-/

----
-- The Handler
----

namespace Pharos.Network

structure Unimplemented where
  message : String
deriving DecidableEq, Repr

/- How the handler comes by the message of a block. -/
abbrev SignedBeaconBlockView :=
  SignedBeaconBlock → Except Unimplemented BeaconBlock

/- The view of the blocks of all forks. -/
def forkEnumMessage : SignedBeaconBlockView :=
  fun _ => .error ⟨"SignedBeaconBlockView::message() on the fork-enum SignedBeaconBlock is not " ++
    "supported. Match on the variant and call .message() on the inner type."⟩

section

variable (view : SignedBeaconBlockView) (blockByRoot : Root → Option SignedBeaconBlock)

/- The loop, with the number of blocks that are still to be collected. -/
def blocksByHead : Nat → Root → Except Unimplemented (List SignedBeaconBlock)
| 0, _ => .ok []
| left + 1, next =>
  match blockByRoot next with
  | none => .ok []
  | some block => do
    let message ← view block
    if message.slot = 0 then
      return [block]
    else
      let rest ← blocksByHead left message.parentRoot
      return block :: rest

def handleBlocksByHead (beaconRoot : Root) (count : Nat) :
    Except Unimplemented (List SignedBeaconBlock) :=
  blocksByHead view blockByRoot (min count maxRequestBlocksDeneb) beaconRoot

end

----
-- What Is Served
----

variable (blockByRoot : Root → Option SignedBeaconBlock)

/- The stored path from a root towards genesis. -/
def ancestorPath : Nat → Root → List SignedBeaconBlock
| 0, _ => []
| left + 1, root =>
  match blockByRoot root with
  | none => []
  | some block =>
    block :: if block.message.slot = 0 then [] else ancestorPath left block.message.parentRoot

/- With a view that shows the messages, the handler serves the path. -/
theorem blocksByHead_eq_ancestorPath {view : SignedBeaconBlockView}
    (hView : ∀ blk, view blk = .ok blk.message) (left : Nat) (r : Root) :
    blocksByHead view blockByRoot left r = .ok (ancestorPath blockByRoot left r) := by
  induction left generalizing r with
  | zero => rfl
  | succ left ih =>
    rw [blocksByHead, ancestorPath]
    cases blockByRoot r with
    | none => rfl
    | some blk =>
      dsimp only
      rw [hView]
      by_cases hGenesis : blk.message.slot = 0
      · simp [hGenesis, bind, Except.bind, pure, Except.pure]
      · simp [hGenesis, ih, bind, Except.bind, pure, Except.pure]

/- The first block that is found ends the answer, when its message is asked for. -/
theorem blocksByHead_forkEnumMessage_of_stored {r : Root} {blk : SignedBeaconBlock}
    (hStored : blockByRoot r = some blk) (left : Nat) :
    ∀ blks, blocksByHead forkEnumMessage blockByRoot (left + 1) r ≠ .ok blks := by
  intro blks hOk
  rw [blocksByHead, hStored] at hOk
  cases hOk

/- The stored path is served exactly when it is empty. -/
theorem blocks_by_head_served_iff (beaconRoot : Root) (count : Nat) :
    handleBlocksByHead forkEnumMessage blockByRoot beaconRoot count =
        .ok (ancestorPath blockByRoot (min count maxRequestBlocksDeneb) beaconRoot) ↔
      count = 0 ∨ blockByRoot beaconRoot = none := by
  unfold handleBlocksByHead
  constructor
  · intro hOk
    by_contra hAsked
    rcases not_or.mp hAsked with ⟨hCount, hStored⟩
    rcases Option.ne_none_iff_exists'.mp hStored with ⟨blk, hBlk⟩
    have hSome : 0 < min count maxRequestBlocksDeneb :=
      lt_min (pos_of_ne_zero hCount) (by decide)
    rcases Nat.exists_eq_succ_of_ne_zero hSome.ne' with ⟨left, hLeft⟩
    rw [hLeft] at hOk
    exact blocksByHead_forkEnumMessage_of_stored blockByRoot hBlk left _ hOk
  · rintro (rfl | hNone)
    · rw [zero_min]
      rfl
    · cases min count maxRequestBlocksDeneb with
      | zero => rfl
      | succ left => rw [blocksByHead, ancestorPath, hNone]

/- The genesis block is stored and asked for; the handler panics. -/
theorem stored_genesis_is_not_served :
    let genesis : SignedBeaconBlock := ⟨⟨.phase0, 0, 0, 0, 0, none, none, none, [], []⟩, 0⟩
    let blockByRoot : Root → Option SignedBeaconBlock :=
      fun r => if r = 7 then some genesis else none
    (handleBlocksByHead forkEnumMessage blockByRoot 7 1).toOption = none ∧
      ancestorPath blockByRoot (min 1 maxRequestBlocksDeneb) 7 = [genesis] :=
  ⟨rfl, rfl⟩

end Pharos.Network
