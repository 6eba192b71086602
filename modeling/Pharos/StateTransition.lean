import Pharos.Lib.Outcome
import Pharos.Types

/-
  This file states the laws of the protocol that the node relies on when it replays blocks, and
  derives from them what advancing a state and applying a block do.
-/

----
-- Laws
----

namespace Pharos

open BeaconSpec

section

/-
  A slot is processed by moving on to the next one. A block is applied at its own slot, after the
  block before it, and then is the latest one, if its state root was checked.
-/
class LawfulBeaconSpec (S : Type) [BeaconSpec S] : Prop where
  slot_processSlot :
    ∀ {state after : S}, processSlot state = .ok after → stateSlot after = stateSlot state + 1
  latestBlock_processSlot :
    ∀ {state after : S}, processSlot state = .ok after → latestBlock after = latestBlock state
  slot_processBlock :
    ∀ {validateResult : Bool} {state after : S} {signedBlock : SignedBeaconBlock},
      processBlock validateResult state signedBlock = .ok after →
        stateSlot state = signedBlock.message.slot ∧ stateSlot after = signedBlock.message.slot ∧
          (latestBlock state).1 < signedBlock.message.slot
  latestBlock_processBlock : ∀ {state after : S} {signedBlock : SignedBeaconBlock},
    processBlock true state signedBlock = .ok after →
    latestBlock after = (signedBlock.message.slot, treeHashRoot S signedBlock.message)

/- A block is applied only to the block that it names. -/
def ChecksParent (S : Type) [BeaconSpec S] : Prop :=
  ∀ (validateResult : Bool) (state after : S)
    (signedBlock : SignedBeaconBlock),
    processBlock validateResult state signedBlock = .ok after →
      (latestBlock state).2 = signedBlock.message.parentRoot

----
-- Slots
----

variable {S : Type} [BeaconSpec S]

def processSlots (state : S) (count : Nat) : Except StateTransitionError S :=
  (List.range count).foldlM (fun current _ => processSlot current) state

theorem processSlotsFork_eq (s : S) (slot : Slot) :
    processSlotsFork s slot = processSlots s (slot - stateSlot s) :=
  rfl

@[simp] theorem processSlots_zero (s : S) : processSlots s 0 = .ok s :=
  rfl

theorem processSlots_succ (s : S) (n : Nat) :
    processSlots s (n + 1) = (processSlots s n).bind processSlot := by
  unfold processSlots
  rw [List.range_succ, List.foldlM_append]
  cases (List.range n).foldlM (fun cur _ => processSlot cur) s with
  | error e => rfl
  | ok s' =>
    show ([n].foldlM (fun cur _ =>
      processSlot cur) s') = processSlot s'
    rw [List.foldlM_cons]
    cases processSlot s' with
    | error e | ok next => rfl

theorem processSlots_add (s : S) (a b : Nat) :
    processSlots s (a + b) = (processSlots s a).bind fun mid => processSlots mid b := by
  induction b with
  | zero =>
    cases processSlots s a with
    | error e | ok mid => rfl
  | succ b ih =>
    rw [← add_assoc, processSlots_succ, ih]
    cases processSlots s a with
    | error e => rfl
    | ok mid => exact (processSlots_succ _ _).symm

theorem processSlots_invariant (Inv : Nat → S → Prop)
    (hKeep : ∀ {n : Nat} {cur s' : S}, Inv n cur →
      processSlot cur = .ok s' → Inv (n + 1) s') {s s' : S} {n : Nat}
    (hStart : Inv 0 s) (hOk : processSlots s n = .ok s') : Inv n s' := by
  induction n generalizing s' with
  | zero =>
    cases hOk
    exact hStart
  | succ n ih =>
    rw [processSlots_succ] at hOk
    rcases Outcome.bind_ok_iff.mp hOk with ⟨previous, hPrev, hOk⟩
    exact hKeep (ih hPrev) hOk

variable [LawfulBeaconSpec S] {s s' : S}

theorem slot_processSlots {n : Nat} (hOk : processSlots s n = .ok s') :
    stateSlot s' = stateSlot s + n := by
  refine processSlots_invariant (fun done cur =>
      stateSlot cur = stateSlot s + done) ?_ rfl hOk
  intro done cur next hSlot hNext
  rw [LawfulBeaconSpec.slot_processSlot hNext, hSlot, add_assoc]

theorem slot_processSlotsFork {slot : Slot} (hOk : processSlotsFork s slot = .ok s') :
    stateSlot s' = max (stateSlot s) slot := by
  rw [slot_processSlots hOk]
  rcases le_total (stateSlot s) slot with hAhead | hPast
  · rw [Nat.add_sub_of_le hAhead, max_eq_right hAhead]
  · rw [Nat.sub_eq_zero_of_le hPast, max_eq_left hPast, add_zero]

theorem latestBlock_processSlotsFork {slot : Slot} (hOk : processSlotsFork s slot = .ok s') :
    latestBlock s' = latestBlock s := by
  refine processSlots_invariant (fun _ cur =>
      latestBlock cur = latestBlock s) ?_ rfl hOk
  intro done cur next hEq hNext
  rw [LawfulBeaconSpec.latestBlock_processSlot hNext, hEq]

/- Advancing in two steps is advancing in one. -/
theorem processSlotsFork_trans {mid slot : Slot} (hFst : stateSlot s ≤ mid)
    (hSnd : mid ≤ slot) :
    processSlotsFork s slot = (processSlotsFork s mid).bind fun t => processSlotsFork t slot := by
  have hSplit : slot - stateSlot s = (mid - stateSlot s) + (slot - mid) := by
    have hNat : ∀ a b c : Nat, a ≤ b → b ≤ c → c - a = (b - a) + (c - b) := by
      omega
    exact hNat _ _ _ hFst hSnd
  rw [processSlotsFork_eq, hSplit, processSlots_add]
  rw [processSlotsFork_eq]
  cases hAt : processSlots s (mid - stateSlot s) with
  | error e => rfl
  | ok t =>
    have hSlot : stateSlot t = mid := by
      rw [slot_processSlots hAt]
      exact Nat.add_sub_of_le hFst
    show processSlots t (slot - mid) = processSlotsFork t slot
    rw [processSlotsFork_eq, hSlot]

end

----
-- Blocks
----

variable {S : Type} [BeaconSpec S] [LawfulBeaconSpec S]
variable {state after : S} {signedBlock : SignedBeaconBlock}

omit [LawfulBeaconSpec S] in
theorem stateTransition_ok_iff {validate : Bool} :
    stateTransition state signedBlock validate = .ok after ↔ ∃ advanced,
      processSlotsFork state signedBlock.message.slot = .ok advanced ∧
      processBlock validate advanced signedBlock = .ok after := by
  unfold stateTransition
  cases processSlotsFork state signedBlock.message.slot with
  | error e | ok advanced => simp [bind, Except.bind]

/- What a checked block leaves behind. -/
structure Applied (state after : S) (signedBlock : SignedBeaconBlock) : Prop where
  newer : (latestBlock state).1 < signedBlock.message.slot
  notPast : stateSlot state ≤ signedBlock.message.slot
  slot : stateSlot after = signedBlock.message.slot
  latest : latestBlock after = (signedBlock.message.slot, treeHashRoot S signedBlock.message)
  checked : stateTransition state signedBlock true = .ok after

theorem stateTransition_ok (hOk : stateTransition state signedBlock true = .ok after) :
    Applied state after signedBlock := by
  rcases stateTransition_ok_iff.mp hOk with ⟨advanced, hAdv, hBlk⟩
  rcases LawfulBeaconSpec.slot_processBlock hBlk with ⟨hHere, hSlot, hNewer⟩
  rw [latestBlock_processSlotsFork hAdv] at hNewer
  rw [slot_processSlotsFork hAdv] at hHere
  exact
    { newer := hNewer
      notPast := hHere ▸ le_max_left _ _
      slot := hSlot
      latest := LawfulBeaconSpec.latestBlock_processBlock hBlk
      checked := hOk }

theorem ChecksParent.stateTransition (hChecks : ChecksParent S) {validate : Bool}
    (hOk : stateTransition state signedBlock validate = .ok after) :
    (latestBlock state).2 = signedBlock.message.parentRoot := by
  rcases stateTransition_ok_iff.mp hOk with ⟨advanced, hAdv, hBlk⟩
  rw [← latestBlock_processSlotsFork hAdv]
  exact hChecks validate advanced after signedBlock hBlk

end Pharos
