import Mathlib.Data.Prod.Lex
import Pharos.Lib.HashTable
import Pharos.Stf.State

/-
  This file implements the updates of a light client of Altair, and which of two is better. Headers
  have one field, the header of their block.

  Main theorems:
  * `LightClient.better_update_strict_weak_order`
-/

----
-- Updates
----

namespace Pharos.Stf.LightClient

open List

structure LightClientPreset where
  slotsPerEpoch : Nat
  epochsPerSyncCommitteePeriod : Nat
  syncCommitteeSize : Nat

structure SyncCommittee where
  pubkeys : List BLSPubkey
  aggregatePubkey : BLSPubkey
deriving DecidableEq, Repr

abbrev LightClientHeader := BeaconBlockHeader

structure LightClientUpdate where
  attestedHeader : LightClientHeader
  nextSyncCommittee : SyncCommittee
  nextSyncCommitteeBranch : List Hash256
  finalizedHeader : LightClientHeader
  finalityBranch : List Hash256
  syncAggregate : SyncAggregate
  signatureSlot : Slot
deriving DecidableEq, Repr

def countParticipants (bits : List Bool) : Nat :=
  (bits.filter id).length

section

variable (update : LightClientUpdate)

def LightClientUpdate.participants : Nat :=
  countParticipants update.syncAggregate.syncCommitteeBits

/- The branch is not all zeros. -/
def isSyncCommitteeUpdate : Bool :=
  update.nextSyncCommitteeBranch ≠ replicate 5 defaultHash

def isFinalityUpdate : Bool :=
  update.finalityBranch ≠ replicate 6 defaultHash

end

variable (E : LightClientPreset) (update : LightClientUpdate)

def computeSyncCommitteePeriodAtSlot (slot : Slot) : Nat :=
  slot / E.slotsPerEpoch / E.epochsPerSyncCommitteePeriod

def attestedPeriod : Nat :=
  computeSyncCommitteePeriodAtSlot E update.attestedHeader.slot

def isSupermajority : Bool :=
  E.syncCommitteeSize * 2 ≤ update.participants * 3

/- The committee is signed for by the committee before it. -/
def isRelevant : Bool :=
  isSyncCommitteeUpdate update &&
    attestedPeriod E update = computeSyncCommitteePeriodAtSlot E update.signatureSlot

def hasSyncCommitteeFinality : Bool :=
  computeSyncCommitteePeriodAtSlot E update.finalizedHeader.slot = attestedPeriod E update

def isBetterUpdate (newUpdate oldUpdate : LightClientUpdate) : Bool :=
  let newN := newUpdate.participants
  let oldN := oldUpdate.participants
  let newSuper := isSupermajority E newUpdate
  if newSuper ≠ isSupermajority E oldUpdate then newSuper
  else if !newSuper ∧ newN ≠ oldN then oldN < newN
  else if isRelevant E newUpdate ≠ isRelevant E oldUpdate then isRelevant E newUpdate
  else if isFinalityUpdate newUpdate ≠ isFinalityUpdate oldUpdate then isFinalityUpdate newUpdate
  else if isFinalityUpdate newUpdate ∧
      hasSyncCommitteeFinality E newUpdate ≠ hasSyncCommitteeFinality E oldUpdate then
    hasSyncCommitteeFinality E newUpdate
  else if newN ≠ oldN then oldN < newN
  else if newUpdate.attestedHeader.slot ≠ oldUpdate.attestedHeader.slot then
    newUpdate.attestedHeader.slot < oldUpdate.attestedHeader.slot
  else newUpdate.signatureSlot < oldUpdate.signatureSlot

def shouldStore (updates : HashMap Nat LightClientUpdate) (update : LightClientUpdate) : Bool :=
  match updates.lookup (attestedPeriod E update) with
  | some existing => isBetterUpdate E update existing
  | none => true

/- One update is kept for each period, as blocks are imported. -/
def keepUpdate (updates : HashMap Nat LightClientUpdate) (update : LightClientUpdate) :
    HashMap Nat LightClientUpdate :=
  if shouldStore E updates update then updates.insert (attestedPeriod E update) update
  else updates

----
-- The Order of Updates
----

/- What is compared, in the order in which it is. -/
def rank :
    Bool ×ₗ Nat ×ₗ Bool ×ₗ Bool ×ₗ Bool ×ₗ Nat ×ₗ Natᵒᵈ ×ₗ Natᵒᵈ :=
  let super := isSupermajority E update
  let final := isFinalityUpdate update
  toLex (super, toLex (if super then 0 else update.participants, toLex (isRelevant E update,
    toLex (final, toLex (final && hasSyncCommitteeFinality E update,
      toLex (update.participants, toLex (OrderDual.toDual update.attestedHeader.slot,
        OrderDual.toDual update.signatureSlot)))))))

variable {E}

theorem isBetterUpdate_iff {newUpdate oldUpdate : LightClientUpdate} :
    isBetterUpdate E newUpdate oldUpdate = true ↔ rank E oldUpdate < rank E newUpdate := by
  unfold isBetterUpdate rank
  simp only [Prod.Lex.toLex_lt_toLex, OrderDual.toDual_lt_toDual, OrderDual.toDual_inj, Bool.lt_iff]
  cases isSupermajority E newUpdate <;> cases isSupermajority E oldUpdate <;> grind

def Incomparable (E : LightClientPreset) (first second : LightClientUpdate) : Prop :=
  isBetterUpdate E first second = false ∧ isBetterUpdate E second first = false

theorem incomparable_iff {a b : LightClientUpdate} :
    Incomparable E a b ↔ rank E a = rank E b := by
  unfold Incomparable
  rw [Bool.eq_false_iff, Bool.eq_false_iff, ne_eq, ne_eq, isBetterUpdate_iff, isBetterUpdate_iff,
    not_lt, not_lt]
  exact le_antisymm_iff.symm

/- The kept updates are some of those seen, and none of those is better. -/
structure KeepsBest (E : LightClientPreset) (seen : List LightClientUpdate)
    (updates : HashMap Nat LightClientUpdate) : Prop where
  best : ∀ update ∈ seen, ∃ kept,
    updates.lookup (attestedPeriod E update) = some kept ∧ rank E update ≤ rank E kept
  kept : ∀ period update, updates.lookup period = some update →
    update ∈ seen ∧ attestedPeriod E update = period

theorem shouldStore_iff {updates : HashMap Nat LightClientUpdate} {update : LightClientUpdate} :
    shouldStore E updates update = true ↔
      ∀ kept, updates.lookup (attestedPeriod E update) = some kept →
        rank E kept < rank E update := by
  unfold shouldStore
  cases updates.lookup (attestedPeriod E update) with
  | none => simp
  | some kept => simp [isBetterUpdate_iff]

theorem KeepsBest.keepUpdate {seen : List LightClientUpdate}
    {updates : HashMap Nat LightClientUpdate} (hKeeps : KeepsBest E seen updates)
    (update : LightClientUpdate) :
    KeepsBest E (seen ++ [update]) (keepUpdate E updates update) := by
  unfold LightClient.keepUpdate
  split
  · rename_i hStore
    rw [shouldStore_iff] at hStore
    constructor
    · intro x hx
      rcases mem_append.mp hx with hSeen | hNew
      · rcases hKeeps.best x hSeen with ⟨kept, hKept, hLe⟩
        by_cases hPeriod : attestedPeriod E x = attestedPeriod E update
        · rw [hPeriod] at hKept ⊢
          exact ⟨update, AList.lookup_insert _, hLe.trans (hStore kept hKept).le⟩
        · exact ⟨kept, (AList.lookup_insert_ne hPeriod).trans hKept, hLe⟩
      · rw [mem_singleton.mp hNew]
        exact ⟨update, AList.lookup_insert _, le_rfl⟩
    · intro period x hGot
      rcases HashTable.lookup_insert_cases hGot with ⟨rfl, rfl⟩ | ⟨_, hGot⟩
      · exact ⟨mem_append_right _ (mem_singleton_self _), rfl⟩
      · exact (hKeeps.kept period x hGot).imp_left (mem_append_left _)
  · rename_i hKeep
    rw [shouldStore_iff] at hKeep
    push Not at hKeep
    constructor
    · intro x hx
      rcases mem_append.mp hx with hSeen | hNew
      · exact hKeeps.best x hSeen
      · rw [mem_singleton.mp hNew]
        exact hKeep
    · intro period x hGot
      exact (hKeeps.kept period x hGot).imp_left (mem_append_left _)

theorem keepsBest_foldl (E : LightClientPreset) (updates : List LightClientUpdate) :
    KeepsBest E updates (updates.foldl (keepUpdate E) ∅) := by
  induction updates using reverseRecOn with
  | nil => exact ⟨by simp, by simp⟩
  | append_singleton seen update ih =>
    rw [foldl_append]
    exact ih.keepUpdate update

/-
  Being better is a strict weak order. Whatever the order in which updates arrive, the same updates
  are kept for a period, up to ties.
-/
theorem better_update_strict_weak_order (E : LightClientPreset) :
    (∀ a, isBetterUpdate E a a = false) ∧
      (∀ a b, isBetterUpdate E a b = true → isBetterUpdate E b a = false) ∧
      (∀ a b c, isBetterUpdate E a b = true → isBetterUpdate E b c = true →
        isBetterUpdate E a c = true) ∧
      (∀ a b c, Incomparable E a b → Incomparable E b c → Incomparable E a c) ∧
      ∀ updates reordered : List LightClientUpdate, updates.Perm reordered →
        ∀ period kept, (updates.foldl (keepUpdate E) ∅).lookup period = some kept →
          ∃ other, (reordered.foldl (keepUpdate E) ∅).lookup period = some other ∧
            Incomparable E kept other := by
  simp only [← Bool.not_eq_true, isBetterUpdate_iff, incomparable_iff]
  refine ⟨fun a => lt_irrefl _, fun a b => lt_asymm, fun a b c hFst hSnd =>
    hSnd.trans hFst, fun a b c => Eq.trans, ?_⟩
  intro updates reordered hPerm period kept hKept
  have hFst := keepsBest_foldl E updates
  have hSnd := keepsBest_foldl E reordered
  rcases hFst.kept period kept hKept with ⟨hSeen, rfl⟩
  rcases hSnd.best kept (hPerm.subset hSeen) with ⟨other, hx, hLe⟩
  rcases hSnd.kept _ other hx with ⟨hSeenOther, hPeriod⟩
  rcases hFst.best other (hPerm.symm.subset hSeenOther) with ⟨again, hAgain, hBack⟩
  rw [hPeriod, hKept] at hAgain
  rw [← Option.some.inj hAgain] at hBack
  exact ⟨other, hx, hLe.antisymm hBack⟩

end Pharos.Stf.LightClient
