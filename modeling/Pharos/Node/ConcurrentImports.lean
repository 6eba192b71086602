import Pharos.Lib.Interleaving
import Pharos.Node.Freezer

/-
  This file describes imports that take turns on one node. No lock is held from the beginning of
  an import to its end: it adds its block, reads the head and writes its block in sections of their
  own, between which others can run, and the write can fail.

  The write holds a read lock on the store, so that the batch is built from the store as it is at
  the write.

  Main theorems:
  * `heads_persisted`
  * `final_importAlone`
-/

----
-- Sections of an Import
----

namespace Pharos.Node

open List BeaconSpec ForkChoice Interleaving Storage Sample

variable {S : Type} [BeaconSpec S]

/- An import is refused, or its block is not written. -/
inductive ImportFailure where
  | refused (source : ImportError)
  | storage
deriving DecidableEq, Repr

/- What an import has in hand between two sections. -/
inductive ImportPhase (S : Type) where
  | begun
  | fetched (preState : S)
  | fresh (preState : S)
  | applied (postState : S)
  | gated (postState : S)
  | added (postState : S)
  | headRead (postState : S) (headChange : HeadChange)
  | seeded (postState : S) (headChange : HeadChange)
  | written (postState : S) (headChange : HeadChange)
  | returned (result : Except ImportFailure (ImportOutcome S))

structure ImportCall (S : Type) where
  signedBlock : SignedBeaconBlock
  inputs : ImportInputs
  phase : ImportPhase S

namespace ImportCall

variable (call : ImportCall S)

@[simp] def goTo (phase : ImportPhase S) : ImportCall S :=
  { call with phase }

@[simp] def refuse (source : ImportError) : ImportCall S :=
  call.goTo (.returned (.error (.refused source)))

/- The root of the block that is imported. -/
@[simp] def blockRoot : Root :=
  treeHashRoot S call.signedBlock.message

def readsHead : Bool :=
  match call.phase with
  | .added _ => true
  | _ => false

/- The head that was read, until the block is written. -/
def headHeld? : Option HeadChange :=
  match call.phase with
  | .headRead _ headChange => some headChange
  | .seeded _ headChange => some headChange
  | _ => none

def headWritten? : Option HeadChange :=
  match call.phase with
  | .written _ headChange => some headChange
  | .returned (.ok outcome) => some outcome.headChange
  | _ => none

def publishedHead? : Option Root :=
  match call.phase with
  | .returned (.ok outcome) => some outcome.headChange.headRoot
  | _ => none

end ImportCall

/- One section of an import. The write of the block succeeds or fails as a whole. -/
def importSection (stored : Bool) (node : NodeState S) (call : ImportCall S) :
    NodeState S × ImportCall S :=
  let signedBlock := call.signedBlock
  let block := signedBlock.message
  let inputs := call.inputs
  match call.phase with
  | .begun =>
    match node.store.blockStates.lookup block.parentRoot with
    | none => (node, call.refuse .missingParentState)
    | some preState => (node, call.goTo (.fetched preState))
  | .fetched preState =>
    if call.blockRoot ∈ node.store.blocks then
      (node, call.refuse (.alreadyImported call.blockRoot))
    else
      (node, call.goTo (.fresh preState))
  | .fresh preState =>
    if isDataAvailable inputs = false then
      (node, call.refuse .dataNotAvailable)
    else
      match stateTransition preState signedBlock inputs.validateResult with
      | .error source => (node, call.refuse (.stateTransition source))
      | .ok postState => (node, call.goTo (.applied postState))
  | .applied postState =>
    match optimisticGate node.store block inputs.payloadStatus with
    | .error refusal => (node, call.refuse refusal)
    | .ok () => (node, call.goTo (.gated postState))
  | .gated postState =>
    match onBlock (nudgeClock node.store inputs.now) signedBlock postState inputs.now
        inputs.powProvider with
    | (store, .error source) => ({ node with store }, call.refuse (.forkChoice source))
    | (store, .ok ()) => ({ node with store }, call.goTo (.added postState))
  | .added postState =>
    match announceHead node.store with
    | .error refusal => (node, call.refuse refusal)
    | .ok headChange => (node, call.goTo (.headRead postState headChange))
  | .headRead postState headChange =>
    ({ node with
        store := seedPayloadStatus node.store block },
      call.goTo (.seeded postState headChange))
  | .seeded postState headChange =>
    if stored then
      ({ node with
          db := node.db.writeBlockTransition
            (persistBatch node.store signedBlock postState headChange.headRoot) },
        call.goTo (.written postState headChange))
    else
      (node, call.goTo (.returned (.error .storage)))
  | .written postState headChange =>
    (node, call.goTo (.returned (.ok ⟨headChange, call.blockRoot, postState⟩)))
  | .returned _ => (node, call)

----
-- What a Section Does
----

/- What a section does to the database, and to the head that its import has read. -/
inductive SectionEffect (node after : NodeState S)
    (call reached : ImportCall S) : Prop where
  | quiet (hDb : after.db = node.db) (hHeld : reached.headHeld? = none)
      (hWritten : reached.headWritten? = none)
  | kept (hDb : after.db = node.db) (hHeld : reached.headHeld? = call.headHeld?)
      (hWritten : reached.headWritten? = call.headWritten?)
  | read (headChange : HeadChange) (hReads : call.readsHead = true)
      (hHead : announceHead node.store = .ok headChange)
      (hDb : after.db = node.db)
      (hHeld : reached.headHeld? = some headChange)
      (hWritten : reached.headWritten? = none)
  | wrote (postState : S) (headChange : HeadChange) (hBefore : call.headHeld? = some headChange)
      (hDb : after.db = node.db.writeBlockTransition (persistBatch node.store call.signedBlock
        postState headChange.headRoot))
      (hHeld : reached.headHeld? = none)
      (hWritten : reached.headWritten? = some headChange)

theorem importSection_effect (old : Bool) (node : NodeState S) (call : ImportCall S) :
    SectionEffect node (importSection old node call).1 call (importSection old node call).2 := by
  rcases call with ⟨signed, ins, phase⟩
  unfold importSection
  cases phase with
  | begun | fetched pre =>
    dsimp only
    split
    · exact .quiet rfl rfl rfl
    · exact .quiet rfl rfl rfl
  | fresh pre =>
    dsimp only
    split
    · exact .quiet rfl rfl rfl
    · split
      · exact .quiet rfl rfl rfl
      · exact .quiet rfl rfl rfl
  | applied post | gated post =>
    dsimp only
    split
    · exact .quiet rfl rfl rfl
    · exact .quiet rfl rfl rfl
  | added post =>
    dsimp only
    split
    · exact .quiet rfl rfl rfl
    · rename_i change hHead
      exact .read change rfl hHead rfl rfl rfl
  | headRead post change => exact .kept rfl rfl rfl
  | seeded post change =>
    dsimp only
    split
    · exact .wrote post change rfl rfl rfl rfl
    · exact .quiet rfl rfl rfl
  | written post change | returned res => exact .kept rfl rfl rfl

theorem signedBlock_importSection (old : Bool) (node : NodeState S)
    (call : ImportCall S) :
    (importSection old node call).2.signedBlock = call.signedBlock := by
  rcases call with ⟨signed, ins, phase⟩
  unfold importSection
  cases phase <;> dsimp only
  all_goals repeat' split
  all_goals rfl

----
-- Imports That Take Turns
----

abbrev ImportingNode (S : Type) :=
  Config (NodeState S) (ImportCall S)

/-
  The clock ticks, an import is called, or an import goes on; if it comes to write its block, the
  write may fail.
-/
inductive ImportingAction where
  | tick (time : Nat)
  | call (signedBlock : SignedBeaconBlock) (inputs : ImportInputs)
  | resume (index : Nat) (stored : Bool)

def ImportingAction.resumed? : ImportingAction → Option Nat
| .resume index _ => some index
| _ => none

def importingStep (config : ImportingNode S) :
    ImportingAction → Except ImportFailure (ImportingNode S)
| .tick time =>
  .ok
    { config with
      shared := { config.shared with store := onTick config.shared.store time } }
| .call signedBlock inputs =>
  .ok (Interleaving.start config ⟨signedBlock, inputs, .begun⟩)
| .resume index stored =>
  .ok (Interleaving.resume (importSection stored) config index)

----
-- One Import Alone
----

variable (node : NodeState S)

def importAlone (signedBlock : SignedBeaconBlock) (inputs : ImportInputs) :
    NodeState S × ImportCall S :=
  (fun pair : NodeState S × ImportCall S =>
    importSection true pair.1 pair.2)^[9] (node, ⟨signedBlock, inputs, .begun⟩)

theorem importAlone_eq (signed : SignedBeaconBlock) (ins : ImportInputs) :
    importAlone node signed ins = ((importBlock node signed ins).1,
      ⟨signed, ins,
      .returned ((importBlock node signed ins).2.mapError .refused)⟩) := by
  unfold importAlone importBlock prepareImport
  cases hPre : node.store.blockStates.lookup signed.message.parentRoot with
  | none => simp [importSection, Except.mapError, *]
  | some pre =>
  by_cases hIn : treeHashRoot S signed.message ∈ node.store.blocks
  · simp [importSection, Except.mapError, *]
  by_cases hData : isDataAvailable ins = false
  · simp [importSection, Except.mapError, *]
  cases hTrans : stateTransition pre signed ins.validateResult with
  | error src => simp [importSection, Except.mapError, *]
  | ok post =>
  cases hGate : optimisticGate node.store signed.message ins.payloadStatus with
  | error e => simp [importSection, Except.mapError, *]
  | ok done =>
  cases hAdd : onBlock (nudgeClock node.store ins.now) signed post ins.now ins.powProvider with
  | mk st res =>
  cases res with
  | error src => simp [importSection, Except.mapError, *]
  | ok done =>
  cases hHead : announceHead st with
  | error e | ok change => simp [importSection, Except.mapError, *]

theorem final_importAlone (node : NodeState S) (calls : List (ImportCall S))
    (signed : SignedBeaconBlock) (ins : ImportInputs) :
    Run.final importingStep ⟨node, calls⟩
        (.call signed ins :: replicate 9 (.resume calls.length true)) =
      ⟨(importBlock node signed ins).1, calls ++ [⟨signed, ins,
        .returned ((importBlock node signed ins).2.mapError .refused)⟩]⟩ := by
  have hCall : Run.next importingStep ⟨node, calls⟩ (.call signed ins) =
      ⟨node, calls ++ [⟨signed, ins, .begun⟩]⟩ := rfl
  have hNext : (fun s : ImportingNode S =>
          Run.next importingStep s (.resume calls.length true)) =
        fun s =>
          Interleaving.resume (importSection true) s calls.length :=
    rfl
  rw [Run.final_cons, hCall, Run.final_replicate, hNext, iterate_resume_last]
  have hImport := importAlone_eq node signed ins
  unfold importAlone at hImport
  rw [hImport]

----
-- Heads on Disk
----

section

def NamesState (db : Db S) (root : Root) : Prop :=
  ∃ signedBlock ∈ db.blocks.lookup root,
    db.metadata.headStateRoot = some signedBlock.message.stateRoot

/- The snapshot and `head_state_root` are of one block. -/
def HeadsAgree (db : Db S) : Prop :=
  ∃ snapshot ∈ db.forkchoice, NamesState db snapshot.headRoot

instance (db : Db S) (root : Root) : Decidable (NamesState db root) :=
  inferInstanceAs (Decidable (∃ signedBlock ∈ db.blocks.lookup root, db.metadata.headStateRoot =
    some signedBlock.message.stateRoot))

instance (db : Db S) : Decidable (HeadsAgree db) :=
  inferInstanceAs (Decidable (∃ snapshot ∈ db.forkchoice, NamesState db snapshot.headRoot))

/-
  The head that an import returned is on disk, and once one has returned the persisted heads agree.
-/
structure HeadsPersisted (config : ImportingNode S) : Prop where
  published : ∀ call ∈ config.tasks, ∀ root ∈ call.publishedHead?, root ∈ config.shared.db.blocks
  agree : ∀ call ∈ config.tasks, call.publishedHead?.isSome = true → HeadsAgree config.shared.db

def HeadReadsApart (config : ImportingNode S) (action : ImportingAction) : Prop :=
  ∀ index ∈ action.resumed?, ∀ call ∈ config.tasks[index]?, call.readsHead = true →
    (∀ peer ∈ config.tasks, peer.headHeld? = none) ∧ (getHead config.shared.store = call.blockRoot ∨
    NamesState config.shared.db (getHead config.shared.store))

instance (config : ImportingNode S) (action : ImportingAction) :
    Decidable (HeadReadsApart config action) :=
  inferInstanceAs (Decidable (∀ index ∈ action.resumed?, ∀ call ∈ config.tasks[index]?,
    call.readsHead = true → _ ∧ _))

/- What an import knows of the database in its phase. -/
structure KnowsHead (node : NodeState S) (call : ImportCall S) : Prop where
  held : ∀ headChange ∈ call.headHeld?,
    headChange.headRoot = call.blockRoot ∨ NamesState node.db headChange.headRoot
  written :
    ∀ headChange ∈ call.headWritten?, headChange.headRoot ∈ node.db.blocks ∧ HeadsAgree node.db

def HoldApart (call peer : ImportCall S) : Prop :=
  call.headHeld? = none ∨ peer.headHeld? = none

theorem headStateRoot_persist (db : Db S) (st : Store S)
    (signed : SignedBeaconBlock) (post : S) (headRoot : Root) :
    (db.writeBlockTransition (persistBatch st signed post headRoot)).metadata.headStateRoot =
      if headRoot = treeHashRoot S signed.message then some signed.message.stateRoot
      else db.metadata.headStateRoot := by
  unfold persistBatch Db.writeBlockTransition
  dsimp only
  split
  · rfl
  · rfl

variable {db : Db S}

omit [BeaconSpec S] in
theorem NamesState.mem_blocks {r : Root} (hNames : NamesState db r) : r ∈ db.blocks := by
  rcases hNames with ⟨signed, hBlk, _⟩
  exact HashTable.mem_iff.mpr ⟨_, hBlk⟩

theorem headsAgree_persist (st : Store S) (signed : SignedBeaconBlock)
    (post : S) {headRoot : Root}
    (hHead : headRoot = treeHashRoot S signed.message ∨ NamesState db headRoot) :
    HeadsAgree (db.writeBlockTransition (persistBatch st signed post headRoot)) := by
  refine ⟨_, rfl, ?_⟩
  by_cases hOwn : headRoot = treeHashRoot S signed.message
  · refine ⟨signed, ?_, ?_⟩
    · rw [hOwn]
      exact AList.lookup_insert _
    · rw [headStateRoot_persist, if_pos hOwn]
  · rcases hHead.resolve_left hOwn with ⟨headBlock, hBlk, hs⟩
    refine ⟨headBlock, ?_, ?_⟩
    · show (AList.insert _ _ _).lookup headRoot = _
      rw [AList.lookup_insert_ne hOwn]
      exact hBlk
    · rw [headStateRoot_persist, if_neg hOwn]
      exact hs

end

----
-- Steps
----

section

variable {node s' : NodeState S}
variable {call p : ImportCall S}

namespace KnowsHead

/- Only the database matters. -/
theorem of_db (hKnows : KnowsHead node call) (hDb : s'.db = node.db) : KnowsHead s' call := by
  constructor
  · rw [hDb]
    exact hKnows.held
  · rw [hDb]
    exact hKnows.written

theorem importSection (hKnows : KnowsHead node call) (hReads : call.readsHead = true →
      getHead node.store = call.blockRoot ∨ NamesState node.db (getHead node.store))
    (old : Bool) :
    KnowsHead (importSection old node call).1 (Node.importSection old node call).2 := by
  have hBlk := signedBlock_importSection old node call
  have hr : (Node.importSection old node call).2.blockRoot = call.blockRoot := by
    unfold ImportCall.blockRoot
    rw [hBlk]
  cases importSection_effect old node call with
  | quiet hDb hHeld hWritten => constructor <;> simp [*]
  | kept hDb hHeld hWritten =>
    constructor
    · rw [hHeld, hr, hDb]
      exact hKnows.held
    · rw [hWritten, hDb]
      exact hKnows.written
  | read y hHere hAnnounced hDb hHeld hWritten =>
    constructor
    · rw [hHeld, hr, hDb]
      rintro _ ⟨⟩
      rw [(announceHead_ok hAnnounced).1]
      exact hReads hHere
    · simp [hWritten]
  | wrote post y hPre hDb hHeld hWritten =>
    have hIn := hKnows.held y hPre
    constructor
    · simp [hHeld]
    · rw [hWritten, hDb]
      rintro _ ⟨⟩
      exact ⟨(AList.mem_insert _).mpr (hIn.imp_right NamesState.mem_blocks),
        headsAgree_persist _ _ _ hIn⟩

theorem peerSection (hPeer : KnowsHead node p) (hKnows : KnowsHead node call)
    (hApart : HoldApart call p) (old : Bool) :
    KnowsHead (Node.importSection old node call).1 p := by
  cases importSection_effect old node call with
  | quiet hDb hHeld hWritten | kept hDb hHeld hWritten => exact hPeer.of_db hDb
  | read y hHere hAnnounced hDb hHeld hWritten => exact hPeer.of_db hDb
  | wrote post y hPre hDb hHeld hWritten =>
    have hFree : p.headHeld? = none := by
      refine hApart.resolve_left ?_
      rw [hPre]
      simp
    constructor
    · simp [hFree]
    · intro change hHead
      rw [hDb]
      exact ⟨(AList.mem_insert _).mpr (.inr (hPeer.written change hHead).1),
        headsAgree_persist _ _ _ (hKnows.held y hPre)⟩

end KnowsHead

omit [BeaconSpec S] in
theorem HoldApart.symm (hApart : HoldApart call p) : HoldApart p call :=
  Or.symm hApart

theorem HoldApart.importSection (node : NodeState S) (hApart : HoldApart call p)
    (hReads : call.readsHead = true → p.headHeld? = none) (old : Bool) :
    HoldApart (importSection old node call).2 p := by
  cases importSection_effect old node call with
  | quiet hDb hHeld hWritten => exact .inl hHeld
  | kept hDb hHeld hWritten => exact hApart.imp_left hHeld.trans
  | read y hHere hAnnounced hDb hHeld hWritten => exact .inr (hReads hHere)
  | wrote post y hPre hDb hHeld hWritten => exact .inl hHeld

theorem asserted_importingStep {cfg s : ImportingNode S} {act : ImportingAction}
    (hAsserted : Asserted KnowsHead HoldApart cfg) (hReads : HeadReadsApart cfg act)
    (hStep : importingStep cfg act = .ok s) : Asserted KnowsHead HoldApart s := by
  cases act with
  | tick t =>
    cases hStep
    refine hAsserted.share ?_
    intro call _ hKnows
    exact hKnows.of_db rfl
  | call signed ins =>
    cases hStep
    refine hAsserted.start ⟨?_, ?_⟩ ?_
    · simp [ImportCall.headHeld?]
    · simp [ImportCall.headWritten?]
    · intro p _
      exact ⟨.inl rfl, .inr rfl⟩
  | resume i old =>
    cases hStep
    refine hAsserted.resume ?_ ?_
    · intro call hCall hKnows
      refine hKnows.importSection ?_ old
      intro hHere
      exact (hReads i rfl call hCall hHere).2
    · intro call p hCall hPeer hKnows hPeerKnows hApart _
      have hFree : call.readsHead = true → p.headHeld? = none := by
        intro hHere
        exact (hReads i rfl call hCall hHere).1 p hPeer
      have hPost := hApart.importSection cfg.shared hFree old
      exact ⟨hPeerKnows.peerSection hKnows hApart old, hPost, hPost.symm⟩

omit [BeaconSpec S] in
theorem headWritten_of_published {r : Root} (hPublished : call.publishedHead? = some r) :
    ∃ change, call.headWritten? = some change ∧ change.headRoot = r := by
  unfold ImportCall.publishedHead? at hPublished
  split at hPublished
  · rename_i outcome hPhase
    refine ⟨outcome.headChange, ?_, Option.some.inj hPublished⟩
    unfold ImportCall.headWritten?
    rw [hPhase]
  · cases hPublished

theorem HeadsPersisted.of_asserted {cfg : ImportingNode S}
    (hAsserted : Asserted KnowsHead HoldApart cfg) : HeadsPersisted cfg := by
  have hReturned : ∀ call ∈ cfg.tasks, ∀ r, call.publishedHead? = some r → r ∈
      cfg.shared.db.blocks ∧ HeadsAgree cfg.shared.db := by
    intro call hCall r hr
    rcases getElem?_of_mem hCall with ⟨i, hIdx⟩
    rcases headWritten_of_published hr with ⟨change, hWritten, rfl⟩
    exact (hAsserted.own i call hIdx).written change hWritten
  constructor
  · intro call hCall r hr
    exact (hReturned call hCall r hr).1
  · intro call hCall hSome
    rcases Option.isSome_iff_exists.mp hSome with ⟨r, hr⟩
    exact (hReturned call hCall r hr).2

/-
  However imports take turns and whichever writes fail: if the head is read by one import at a time,
  until it has written, and is then its own block or the one that the database points to, every head
  that is returned is on disk, and the persisted heads agree.
-/
theorem heads_persisted (node : NodeState S) (actions : List ImportingAction)
    (hReads : Run.StepsMeet importingStep HeadReadsApart ⟨node, []⟩ actions) :
    ∀ past rest,
      actions = past ++ rest → HeadsPersisted (Run.final importingStep ⟨node, []⟩ past) := by
  intro past rest hActions
  rw [hActions, Run.stepsMeet_append] at hReads
  apply HeadsPersisted.of_asserted
  refine Run.invariant (Asserted KnowsHead HoldApart) ?_ hReads.1 ?_
  · intro s act t _ hAsserted hHere hStep
    exact asserted_importingStep hAsserted hHere hStep
  · constructor
    · intro i call hCall
      cases hCall
    · intro a b call p _ hCall
      cases hCall

end

----
-- Two Siblings and a Child
----

def higherChild : BeaconBlock :=
  child higherRoot 2 1 []

def idleNode : ImportingNode ChainState :=
  ⟨syncedNode, []⟩

def callAt (now : Nat) (block : BeaconBlock) : ImportingAction :=
  .call (signed block) { verifiedInputs with now }

def callSiblings : List ImportingAction :=
  [callAt 12 higherSibling, callAt 12 lowerSibling]

def goOn (index sections : Nat) : List ImportingAction :=
  replicate sections (.resume index true)

/- The siblings prepare together, and write one by one. -/
def takeTurns : List ImportingAction :=
  callSiblings ++ goOn 1 2 ++ goOn 0 8 ++ goOn 1 4 ++ goOn 0 1 ++ goOn 1 3

theorem heads_persisted_takeTurns :
    (Run.final importingStep idleNode takeTurns).tasks.map ImportCall.publishedHead? =
        [some higherRoot, some higherRoot] ∧
      HeadsPersisted (Run.final importingStep idleNode takeTurns) :=
  ⟨by decide, heads_persisted syncedNode takeTurns (by decide) takeTurns [] (append_nil _).symm⟩

/- The higher sibling is added, and the lower one imported. -/
def overtake : List ImportingAction :=
  callSiblings ++ goOn 0 5 ++ goOn 1 9

/- Then the write of the higher sibling fails. -/
def overtakeAndFail : List ImportingAction :=
  overtake ++ goOn 0 2 ++ [.resume 0 false]

/-
  Every write succeeds, but that of the lower sibling comes last, after that of a block on the
  higher one.
-/
def writeLate : List ImportingAction :=
  callSiblings ++ goOn 0 5 ++ goOn 1 7 ++ goOn 0 4 ++
    [callAt 24 higherChild] ++ goOn 2 9 ++ goOn 1 2

/-
  A head is returned that is not on disk, and never will be; and where all is written, the persisted
  heads are those of two blocks.
-/
theorem head_published_unwritten :
    let overtaken := Run.final importingStep idleNode overtake
    let failed := Run.final importingStep idleNode overtakeAndFail
    let late := Run.final importingStep idleNode writeLate
    (overtaken.tasks.map ImportCall.publishedHead? = [none, some higherRoot] ∧
          higherRoot ∉ overtaken.shared.db.blocks ∧ ¬HeadsPersisted overtaken) ∧
          (higherRoot ∉ failed.shared.db.blocks ∧ ¬HeadsPersisted failed) ∧
          (late.tasks.map ImportCall.publishedHead? = [some higherRoot, some higherRoot,
          some (treeHashRoot higherChild)] ∧ ¬HeadsPersisted late) := by
  refine ⟨⟨by decide, by decide, ?_⟩, ⟨by decide, ?_⟩, by decide, ?_⟩
  · intro hPersisted
    exact absurd hPersisted.published (by decide)
  · intro hPersisted
    exact absurd hPersisted.published (by decide)
  · intro hPersisted
    exact absurd hPersisted.agree (by decide)

end Pharos.Node
