import Pharos.Node.Import

/-
  This file compares the head with the votes that the imported blocks carry. Importing a block does
  not pass its votes on to the fork choice, so that the weights are those of the proposer boost
  alone.

  Main theorems:
  * `head_follows_votes_iff`
-/

----
-- Votes Carried by Blocks
----

namespace Pharos.Node

open Forest List

variable {S : Type} [BeaconSpec S]

section

open BeaconSpec ForkChoice

variable (store : Store S)

def attesters (attestation : Attestation) : List ValidatorIndex :=
  match targetCheckpointState store attestation.data.target with
  | .error _ => []
  | .ok targetState => getAttestingIndices targetState attestation

section

variable (attestations : List Attestation)

/-
  The vote of a validator with the highest target epoch; the first of them when there are several.
-/
def carriedMessage (index : ValidatorIndex) : Option LatestMessage :=
  attestations.foldl
    (fun latest attestation =>
      let data := attestation.data
      if index ∈ attesters store attestation ∧
          latest.all fun message =>
            message.epoch < data.target.epoch then
        some ⟨data.target.epoch, data.beaconBlockRoot⟩
      else
        latest)
    none

def carriesVoteFor (root : Root) (index : ValidatorIndex) : Bool :=
  match carriedMessage store attestations index with
  | none => false
  | some message => isOnChain store.blocks root message.root

def votingState : Option S :=
  (targetCheckpointState store store.justifiedCheckpoint).toOption

/-
  The balance of the active, unslashed and not equivocating validators whose votes are inside the
  root's subtree.
-/
def carriedWeight (root : Root) : Gwei :=
  match votingState store with
  | none => 0
  | some state =>
    let active := getActiveValidatorIndices state (getCurrentEpoch state)
    let voters := active.filter fun index =>
      isUnslashed state index && index ∉ store.equivocatingIndices &&
        carriesVoteFor store attestations root index
    (voters.map (effectiveBalanceOf state)).sum

def proposerBoost : Gwei :=
  match votingState store with
  | none => 0
  | some state => computeProposerScore state

/-
  Of two siblings below the justified block that both lead to a viable leaf, the one has more votes
  than the other and the boost together.
-/
structure Outvoted (winner loser : Root) : Prop where
  known : store.justifiedCheckpoint.root ∈ store.blocks
  siblings : ∃ parent,
    Ancestor (parentOf store.blocks) store.justifiedCheckpoint.root parent ∧
      parentOf store.blocks winner = some parent ∧
      parentOf store.blocks loser = some parent
  winnerViable : Viable store winner
  loserViable : Viable store loser
  votes : carriedWeight store attestations loser + proposerBoost store <
    carriedWeight store attestations winner

/- The head is never below a block that was outvoted. -/
def HeadFollowsVotes : Prop :=
  ∀ winner loser, Outvoted store attestations winner loser →
    ¬Ancestor (parentOf store.blocks) loser (getHead store)

end

end

----
-- The Boost Alone
----

section

open ForkChoice

variable (store : Store S)

def boostWeight (root : Root) : Gwei :=
  match justifiedState store with
  | none => 0
  | some state =>
    if store.proposerBoostRoot ≠ defaultRoot ∧
        getAncestor store store.proposerBoostRoot (blockSlotOrZero store root) = root then
      computeProposerScore state
    else
      0

/- A child has the boost, or the higher root if no other viable child has the boost. -/
structure Preferred (parent child : Root) : Prop where
  known : parent ∈ store.blocks
  notInvalid : ¬store.IsInvalid parent
  link : parentOf store.blocks child = some parent
  viable : Viable store child
  best : ∀ other, parentOf store.blocks other = some parent → Viable store other →
    toLex (boostWeight store other, other) ≤ toLex (boostWeight store child, child)

variable {st : Store S}

theorem getWeight_eq_boostWeight (hNoVotes : st.latestMessages = ∅) (r : Root) :
    getWeight st r = boostWeight st r := by
  have hScore : ∀ s indices, getAttestationScore st r s indices = 0 := by
    have hNone : ∀ i, votesFor st r i = false := by
      simp [votesFor, hNoVotes]
    simp [getAttestationScore, attestingBalances, Word.wrapSum, hNone]
  unfold getWeight getWeightWith boostWeight
  cases hs : justifiedState st with
  | none => rfl
  | some s =>
    dsimp only
    rw [hScore]
    by_cases hBoost : st.proposerBoostRoot = defaultRoot
    · simp [hBoost]
    · by_cases hBelow : getAncestor st st.proposerBoostRoot (blockSlotOrZero st r) = r
      · have hFits : 0 + computeProposerScore s < 2 ^ 64 := by
          rw [Nat.zero_add]
          exact computeProposerScore_lt s
        simp [hBoost, hBelow, getProposerScore, hs, Word.wrapAdd_of_lt hFits]
      · simp [hBoost, hBelow, Word.wrapAdd]

section

variable (hLinked : ParentLinked st.blocks)
include hLinked

section

variable (hNoVotes : st.latestMessages = ∅)
include hNoVotes

theorem nextHead_iff_preferred {head c : Root}
    (hAt : Reached st (effectiveBase st) head) :
    nextHead st head = some c ↔ Preferred st head c := by
  rw [nextHead_some_iff hLinked hAt]
  simp only [getWeight_eq_boostWeight hNoVotes]
  constructor
  · rintro ⟨⟨hLink, hViable⟩, hBest⟩
    exact ⟨hAt.known, hAt.notInvalid, hLink, hViable, hBest⟩
  · intro hPreferred
    exact ⟨⟨hPreferred.link, hPreferred.viable⟩, hPreferred.best⟩

theorem descent_iff_preferred {r : Root} :
    Reaches (nextHead st) (effectiveBase st) r ↔
      Relation.ReflTransGen (Preferred st) (effectiveBase st) r := by
  constructor
  · intro hDescent
    induction hDescent with
    | refl => exact Relation.ReflTransGen.refl
    | @tail head c hPath hStep ih =>
      have hKept := (parentOf_of_nextHead hLinked hStep).2
      have hAt := reached_of_descent hLinked hKept.1.base_reached hPath
      exact ih.tail ((nextHead_iff_preferred hLinked hNoVotes hAt).mp hStep)
  · intro hDescent
    -- Along the path, every block is reached from the base.
    suffices hBoth : Reaches (nextHead st) (effectiveBase st) r ∧ (r = effectiveBase st ∨
            Reached st (effectiveBase st) r) from
      hBoth.1
    induction hDescent with
    | refl => exact ⟨Relation.ReflTransGen.refl, .inl rfl⟩
    | @tail head c hPath hStep ih =>
      have hAt : Reached st (effectiveBase st) head := by
        rcases ih.2 with hBase | hAt
        · rw [hBase] at hStep ⊢
          exact .base hStep.known hStep.notInvalid
        · exact hAt
      exact ⟨ih.1.tail ((nextHead_iff_preferred hLinked hNoVotes hAt).mpr hStep),
          .inr (.child hAt hStep.link hStep.viable.notInvalid)⟩

theorem headFollowsVotes_iff (attestations : List Attestation) :
    HeadFollowsVotes st attestations ↔ ∀ winner loser, Outvoted st attestations winner loser →
      ¬Relation.ReflTransGen (Preferred st) st.justifiedCheckpoint.root loser := by
  refine forall_congr' fun winner =>
    forall_congr' fun loser =>
      imp_congr_right fun hOutvoted => not_congr ?_
  have hBase : effectiveBase st = st.justifiedCheckpoint.root := by
    rw [effectiveBase, if_pos hOutvoted.known]
  rcases hOutvoted.siblings with ⟨par, hPar, _, hLoser⟩
  have hBelow : Ancestor (parentOf st.blocks) (effectiveBase st) loser := by
    rw [hBase]
    exact hPar.trans (Ancestor.of_parent hLoser)
  rw [ancestor_getHead_iff hLinked hBelow, descent_iff_preferred hLinked hNoVotes, hBase]

end

end

end

----
-- Runs of Imports
----

section

open BeaconSpec ForkChoice Storage

def carriedAttestations (node : NodeState S) (actions : List NodeAction) : List Attestation :=
  (importedBlocks node actions).flatMap BeaconBlock.attestations

theorem no_votes_final (anchorState : S) (anchorBlock : BeaconBlock) (db : Db S)
    (acts : List NodeAction) :
    let s₀ := anchored anchorState anchorBlock db
    let t := Run.final nodeStep s₀ acts
    KeyedByRoot S (anchorBlock :: importedBlocks s₀ acts) t.store.blocks ∧
      t.store.latestMessages = ∅ := by
  have hStart : KeyedByRoot S [anchorBlock] (anchored anchorState anchorBlock db).store.blocks ∧
      (anchored anchorState anchorBlock db).store.latestMessages = ∅ :=
    ⟨KeyedByRoot.getForkchoiceStore (mem_singleton_self anchorBlock), rfl⟩
  refine imports_invariant (fun blks node =>
    KeyedByRoot S blks node.store.blocks ∧ node.store.latestMessages = ∅) ?_ ?_ hStart
  · intro blks s s' hPre hEq _
    rw [blocks_of_same hEq, show s'.store.latestMessages = s.store.latestMessages
      from congrArg Knowledge.latestMessages hEq]
    exact hPre
  · intro blks s s' signed ins post hPre _ hImp
    have hMessages := congrArg Knowledge.latestMessages hImp.knowledge
    refine ⟨?_, hMessages.trans hPre.2⟩
    rw [hImp.blocks]
    apply KeyedByRoot.insert
    · apply hPre.1.mono
      intro blk hBlk
      exact mem_append_left _ hBlk
    · exact mem_append_right _ (mem_singleton_self signed.message)

/-
  After any run, the head follows the votes that the imported blocks carry exactly when no outvoted
  block is preferred, by the boost and then by its root, all the way from the justified block.
-/
theorem head_follows_votes_iff (anchorState : S) (anchorBlock : BeaconBlock) (db : Db S)
    (actions : List NodeAction)
    (hLinked : HashLinked S (anchorBlock :: importedBlocks
      (anchored anchorState anchorBlock db) actions)) :
    let start := anchored anchorState anchorBlock db
    let st := (Run.final nodeStep start actions).store
    let attestations := carriedAttestations start actions
    HeadFollowsVotes st attestations ↔ ∀ winner loser, Outvoted st attestations winner loser →
      ¬Relation.ReflTransGen (Preferred st) st.justifiedCheckpoint.root loser := by
  have hFinal :=
    no_votes_final anchorState anchorBlock db actions
  exact headFollowsVotes_iff (hFinal.1.parentLinked hLinked) hFinal.2 _

end

----
-- Two Siblings
----

open ForkChoice Storage

open Sample

/- All validators vote for a block of the first epoch. -/
def unanimousVote (slot : Slot) (root : Root) : Attestation where
  aggregationBits := [true, true, true]
  data :=
    { slot
      index := 0
      beaconBlockRoot := root
      source := ⟨0, anchorRoot⟩
      target := ⟨0, anchorRoot⟩ }
  signature := 0

def lowerSibling : BeaconBlock :=
  child anchorRoot 1 1 []

def lowerRoot : Root :=
  treeHashRoot lowerSibling

def higherSibling : BeaconBlock :=
  child anchorRoot 1 2 []

def higherRoot : Root :=
  treeHashRoot higherSibling

def votingBlock (voted : Root) : BeaconBlock :=
  child voted 2 1 [unanimousVote 1 voted]

def verifiedInputs : ImportInputs where
  dataVerdict := .irrelevant
  refetchedVerdict := none
  payloadStatus := some .valid
  validateResult := true
  now := 40
  powProvider := noPowBlocks

def importVotesFor (voted : Root) : List NodeAction :=
  .tick 40 ::
    [lowerSibling, higherSibling, votingBlock voted].map
      fun block =>
        .importBlock (signed block) verifiedInputs

def sampleNode : NodeState ChainState :=
  anchored anchorState anchorBlock (Db.empty ChainState)

def afterVotesFor (voted : Root) : Store ChainState :=
  (Run.final nodeStep sampleNode (importVotesFor voted)).store

/- The condition, after votes for the higher sibling. -/
theorem head_follows_votes_iff_higherRoot :
    let store := afterVotesFor higherRoot
    let attestations := carriedAttestations sampleNode (importVotesFor higherRoot)
    carriedWeight store attestations higherRoot = 96 ∧ (HeadFollowsVotes store attestations ↔
      ∀ winner loser, Outvoted store attestations winner loser →
      ¬Relation.ReflTransGen (Preferred store) store.justifiedCheckpoint.root loser) :=
  ⟨by decide, head_follows_votes_iff anchorState anchorBlock (Db.empty ChainState)
      (importVotesFor higherRoot) (hashLinked _)⟩

/-
  The head is the sibling with the higher root, although every validator votes for the other one.
-/
theorem head_ignores_votes :
    let store := afterVotesFor lowerRoot
    let attestations := carriedAttestations sampleNode (importVotesFor lowerRoot)
    carriedWeight store attestations lowerRoot = 96 ∧
      carriedWeight store attestations higherRoot = 0 ∧
      proposerBoost store = 9 ∧
      getHead store = higherRoot ∧
      ¬HeadFollowsVotes store attestations := by
  have hHead : getHead (afterVotesFor lowerRoot) = higherRoot := by
    decide
  have hLower : Viable (afterVotesFor lowerRoot) lowerRoot :=
    .branch (by decide) (by decide) (by decide)
      (.leaf (by decide) (by decide) (by decide) (by decide) :
        Viable (afterVotesFor lowerRoot) (treeHashRoot (votingBlock lowerRoot)))
  have hHigher : Viable (afterVotesFor lowerRoot) higherRoot :=
    .leaf (by decide) (by decide) (by decide) (by decide)
  refine ⟨by decide, by decide, by decide, hHead, ?_⟩
  intro hFollows
  have hApart := hFollows lowerRoot higherRoot
    ⟨by decide, ⟨anchorRoot, Ancestor.refl _, by decide, by decide⟩, hLower, hHigher, by decide⟩
  exact hApart (Ancestor.refl higherRoot)

end Pharos.Node
